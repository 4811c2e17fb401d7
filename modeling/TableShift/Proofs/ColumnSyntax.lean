import TableShift.Proofs.Groups

/-! # Column definitions as they are written

A column definition is a name, a type with parameters in parentheses, and options in any
order. Here a definition is a value that carries its lexemes and what they are known to
be, so that the two ways of reading one can be compared: in the creation of a table, and
in a clause that adds a column.
-/

namespace TableShift

open Lexeme

/-- The options that stand alone. -/
def flagWords : List String :=
  ["NOT NULL", "NULL", "UNSIGNED", "SIGNED", "ZEROFILL", "AUTO_INCREMENT"]

/-- The options with a value of one token. -/
def valueWords : List String :=
  ["DEFAULT", "CHARACTER SET", "COLLATE"]

theorem ColumnMethod.isKnown_eq_any (word : String) :
    isKnown word = columnMethods.any (·.sqlType == upperAscii word) := by
  have upper : ∀ m ∈ columnMethods, upperAscii m.sqlType = m.sqlType := by decide +kernel
  rw [isKnown, find?, List.isSome_find?, Bool.eq_iff_iff, List.any_eq_true, List.any_eq_true]
  apply exists_congr
  intro m
  apply and_congr_right
  intro listed
  rw [sameFolded, upper m listed]

theorem ColumnMethod.isKnown_eq_false {word : String}
    (h : word ∈ nameIntroducers ++ (flagWords ++ (valueWords ++ ["COMMENT", "CHECK"]))) :
    isKnown word = false := by
  have untyped : ∀ word ∈ nameIntroducers ++ (flagWords ++ (valueWords ++
      ["COMMENT", "CHECK"])), isKnown word = false := by
    simp only [isKnown_eq_any]
    decide +kernel
  exact untyped word h

/-- The tokens that are values: literals, `NULL` and identifiers. -/
inductive PlainValue : Token → Prop where
  | literal (value : Value) : PlainValue (.literal value)
  | null : PlainValue (.keyword "NULL")
  | identifier (name : String) : PlainValue (.identifier name)

/-- An option of a column, as it is written. -/
inductive OptionSyntax where
  /-- Such as `NOT NULL`. -/
  | flag (head : Lexeme) (word : String) (spelled : head.token = .keyword word)
      (listed : word ∈ flagWords)
  /-- Such as `DEFAULT 0`. -/
  | valued (head content : Lexeme) (word : String) (spelled : head.token = .keyword word)
      (listed : word ∈ valueWords) (plain : PlainValue content.token)
  /-- `AFTER` and a name. -/
  | after (head name : Lexeme) (column : String) (spelled : head.token = .keyword "AFTER")
      (named : name.name? = some column) (proper : name.token ≠ .keyword "NULL")
  /-- `COMMENT` and a literal. -/
  | comment (head text : Lexeme) (value : Value) (spelled : head.token = .keyword "COMMENT")
      (literal : text.token = .literal value)
  /-- `CHECK` and a condition in parentheses. -/
  | check (head opening closing : Lexeme) (inside : List Lexeme)
      (spelled : head.token = .keyword "CHECK") (opens : opening.token = .punct '(')
      (balanced : Balanced inside) (closes : closing.token = .punct ')')

namespace OptionSyntax

def lexemes : OptionSyntax → List Lexeme
  | flag head .. => [head]
  | valued head content .. => [head, content]
  | after head name .. => [head, name]
  | comment head text .. => [head, text]
  | check head opening closing inside .. => head :: opening :: (inside ++ [closing])

/-- The option as a clause that adds a column has it; a check is none. -/
def option? : OptionSyntax → Option ColumnOption
  | flag _ word .. => some (.flag word)
  | valued _ content word .. => some (.keyValue word content.token.toValue)
  | after _ _ column .. => some (.keyValue "AFTER" (.expr column))
  | comment _ _ value .. => some (.keyValue "COMMENT" value)
  | check .. => none

/-- Whether the option ends with a word that makes the next word a name: it is put after
    a column whose name is such a keyword. -/
def introducesName : OptionSyntax → Bool
  | after _ name .. => name.introducesName
  | _ => false

/-- The options that do not directly follow one that makes the next word a name. -/
def visible (hidden : Bool) : List OptionSyntax → List OptionSyntax
  | [] => []
  | option :: options =>
    if hidden then visible option.introducesName options
    else option :: visible option.introducesName options

end OptionSyntax

/-- The parameters of a type, as they are written. -/
structure ParameterSyntax where
  opening : Lexeme
  closing : Lexeme
  /-- The parameters, one lexeme each. -/
  parameters : List Lexeme
  /-- The parameters with the commas between them. -/
  inside : List Lexeme
  opens : opening.token = .punct '('
  closes : closing.token = .punct ')'
  single : ∀ l ∈ parameters, Part [l]
  separated : parameters = [] ∧ inside = [] ∨ Separated (parameters.map ([·])) inside

namespace ParameterSyntax

def lexemes (s : ParameterSyntax) : List Lexeme :=
  s.opening :: (s.inside ++ [s.closing])

theorem balanced (s : ParameterSyntax) : Balanced s.inside := by
  rcases s.separated with ⟨_, empty⟩ | separated
  · rw [empty]
    exact .nil
  · apply separated.balanced
    intro part member
    obtain ⟨l, listed, rfl⟩ := List.mem_map.mp member
    exact (s.single l listed).balanced

theorem mem_inside (s : ParameterSyntax) {l : Lexeme} (listed : l ∈ s.parameters) :
    l ∈ s.inside := by
  rcases s.separated with ⟨none, _⟩ | separated
  · simp [none] at listed
  · exact separated.mem (List.mem_map_of_mem listed) (List.mem_singleton_self l)

theorem commaParts_inside (s : ParameterSyntax) : commaParts s.inside = s.parameters.map ([·]) := by
  rcases s.separated with ⟨none, empty⟩ | separated
  · rw [none, empty]
    rfl
  · apply commaParts_separated separated
    intro part member
    obtain ⟨l, listed, rfl⟩ := List.mem_map.mp member
    exact s.single l listed

end ParameterSyntax

/-- A column definition, as it is written. -/
structure ColumnSyntax where
  name : Lexeme
  column : String
  type : Lexeme
  typeName : String
  parameters : Option ParameterSyntax
  options : List OptionSyntax
  named : name.name? = some column
  unreserved : ∀ word ∈ keyClauseWords, name.token ≠ .keyword word
  typed : type.token = .keyword typeName
  known : ColumnMethod.isKnown typeName = true

namespace ColumnSyntax

def tail (s : ColumnSyntax) : List Lexeme :=
  (s.parameters.map ParameterSyntax.lexemes).getD [] ++ s.options.flatMap OptionSyntax.lexemes

def lexemes (s : ColumnSyntax) : List Lexeme :=
  s.name :: s.type :: s.tail

end ColumnSyntax

end TableShift
