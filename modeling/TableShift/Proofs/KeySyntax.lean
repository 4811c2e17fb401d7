import TableShift.Proofs.Groups

/-! # Key clauses as they are written

A key clause names its kind, possibly the key, and its columns in parentheses, each with
an optional length; a foreign key also names what it refers to and what happens to
referring rows. Every name is an identifier without qualifiers.
-/

namespace TableShift

open Lexeme

structure NameSyntax where
  lexeme : Lexeme
  name : String
  spelled : lexeme.token = .identifier name

namespace NameSyntax

theorem name?_lexeme (s : NameSyntax) : s.lexeme.name? = some s.name := by
  simp [Lexeme.name?, s.spelled]

theorem asIdentifier_lexeme (s : NameSyntax) : s.lexeme.asIdentifier = .identifier s.name := by
  simp [asIdentifier, s.name?_lexeme]

theorem introducesName_lexeme (s : NameSyntax) : s.lexeme.introducesName = false := by
  simp [introducesName, s.spelled, Token.isKeyword]

theorem flat (s : NameSyntax) : s.lexeme.Flat :=
  flat_of_name? s.name?_lexeme

theorem part (s : NameSyntax) : Part [s.lexeme] where
  nonempty := List.cons_ne_nil _ _
  balanced := .flat s.flat .nil
  uncut := by simp [s.spelled, Token.isPunct]

end NameSyntax

/-- The length of a key's column: a number in parentheses. -/
structure LengthSyntax where
  opening : Lexeme
  number : Lexeme
  closing : Lexeme
  text : String
  opens : opening.token = .punct '('
  numeral : number.token = .literal (.number text)
  closes : closing.token = .punct ')'

namespace LengthSyntax

def lexemes (s : LengthSyntax) : List Lexeme :=
  [s.opening, s.number, s.closing]

theorem flat_number (s : LengthSyntax) : s.number.Flat := by
  simp [Flat, s.numeral, Token.isPunct]

theorem balanced (s : LengthSyntax) : Balanced s.lexemes :=
  .group s.opens (.flat s.flat_number .nil) s.closes .nil

end LengthSyntax

/-- A column of a key, with its length if it has one. -/
structure KeyPart where
  column : NameSyntax
  length : Option LengthSyntax

namespace KeyPart

def lexemes (s : KeyPart) : List Lexeme :=
  s.column.lexeme :: (s.length.map LengthSyntax.lexemes).getD []

theorem part (s : KeyPart) : Part s.lexemes where
  nonempty := List.cons_ne_nil _ _
  balanced := by
    refine .flat s.column.flat ?_
    cases s.length with
    | none => exact .nil
    | some length => exact length.balanced
  uncut := by
    cases given : s.length with
    | none => simp [lexemes, given, s.column.spelled, Token.isPunct]
    | some length =>
        simp [lexemes, given, s.column.spelled, Token.isPunct, LengthSyntax.lexemes, length.opens,
          length.numeral, length.closes]

end KeyPart

/-- The columns of a key in parentheses. -/
structure KeyColumns where
  opening : Lexeme
  closing : Lexeme
  parts : List KeyPart
  /-- The parts with the commas between them. -/
  inside : List Lexeme
  opens : opening.token = .punct '('
  closes : closing.token = .punct ')'
  nonempty : parts ≠ []
  separated : Separated (parts.map KeyPart.lexemes) inside

namespace KeyColumns

def lexemes (s : KeyColumns) : List Lexeme :=
  s.opening :: (s.inside ++ [s.closing])

def names (s : KeyColumns) : List String :=
  s.parts.map (·.column.name)

theorem part_of_mem (s : KeyColumns) : ∀ part ∈ s.parts.map KeyPart.lexemes, Part part := by
  intro part member
  obtain ⟨listed, _, rfl⟩ := List.mem_map.mp member
  exact listed.part

theorem balanced (s : KeyColumns) : Balanced s.inside :=
  s.separated.balanced fun part member => (s.part_of_mem part member).balanced

theorem commaParts_inside (s : KeyColumns) : commaParts s.inside = s.parts.map KeyPart.lexemes :=
  commaParts_separated s.separated s.part_of_mem

theorem group_lexemes (s : KeyColumns) (rest : List Lexeme) (stop : Nat) :
    Cursor.group ⟨s.lexemes ++ rest, stop⟩ = .ok (s.inside, ⟨rest, stop⟩) := by
  have read := Cursor.group_balanced s.opens s.balanced s.closes rest stop
  simpa [lexemes] using read

end KeyColumns

/-- A referential action, such as `ON DELETE CASCADE`. -/
structure ActionSyntax where
  event : Lexeme
  eventWord : String
  action : Lexeme
  actionWord : String
  option : ReferenceOption
  eventSpelled : event.token = .keyword eventWord
  actionSpelled : action.token = .keyword actionWord
  isEvent : ReferenceEvent.ofKeyword? eventWord = some option.event
  isAction : ReferenceAction.ofKeyword? actionWord = some option.action

def ActionSyntax.lexemes (s : ActionSyntax) : List Lexeme :=
  [s.event, s.action]

/-- The target of a foreign key. -/
structure ReferenceSyntax where
  head : Lexeme
  table : NameSyntax
  columns : Option KeyColumns
  actions : List ActionSyntax
  spelled : head.token = .keyword "REFERENCES"

namespace ReferenceSyntax

def tail (s : ReferenceSyntax) : List Lexeme :=
  (s.columns.map KeyColumns.lexemes).getD [] ++ s.actions.flatMap ActionSyntax.lexemes

def lexemes (s : ReferenceSyntax) : List Lexeme :=
  s.head :: s.table.lexeme :: s.tail

def target (s : ReferenceSyntax) : References where
  table := s.table.name
  columns := (s.columns.map KeyColumns.names).getD []
  options := s.actions.map ActionSyntax.option

end ReferenceSyntax

/-- `CONSTRAINT` and possibly a symbol. -/
structure ConstraintSyntax where
  head : Lexeme
  symbol : Option NameSyntax
  spelled : head.token = .keyword "CONSTRAINT"

/-- The keywords of keys besides primary and foreign ones. -/
def indexWords : List String :=
  ["INDEX", "KEY", "UNIQUE", "UNIQUE INDEX", "UNIQUE KEY", "FULLTEXT", "FULLTEXT INDEX",
    "FULLTEXT KEY"]

/-- A key clause, as it is written. -/
inductive KeySyntax where
  /-- Such as `UNIQUE name (columns)`. -/
  | index (head : Lexeme) (word : String) (spelled : head.token = .keyword word)
      (listed : word ∈ indexWords) (name : Option NameSyntax) (columns : KeyColumns)
  /-- Such as `CONSTRAINT symbol FOREIGN KEY (columns) REFERENCES table (columns)`. -/
  | foreign (constraint : Option ConstraintSyntax) (head : Lexeme)
      (spelled : head.token = .keyword "FOREIGN KEY") (columns : KeyColumns)
      (reference : ReferenceSyntax)

namespace KeySyntax

/-- The lexeme of a name that may be missing. -/
def nameLexemes (name : Option NameSyntax) : List Lexeme :=
  (name.map NameSyntax.lexeme).toList

def lexemes : KeySyntax → List Lexeme
  | index head _ _ _ name columns => head :: (nameLexemes name ++ columns.lexemes)
  | foreign constraint head _ columns reference =>
    (match constraint with
      | some constraint => constraint.head :: nameLexemes constraint.symbol
      | none => []) ++ head :: (columns.lexemes ++ reference.lexemes)

end KeySyntax

end TableShift
