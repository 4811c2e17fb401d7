import TableShift.Proofs.KeySyntax
import TableShift.Schema.Step

/-! # Two readings of a key clause

As a field of a new table a key clause is read part by part. In an alteration it becomes
tokens, from which the lengths of its columns are left out, behind the words that tell
what is added.
-/

namespace TableShift

open Lexeme

/-! ## In a new table -/

/-- A word that can be a name is one, unless a dot makes it a qualifier. -/
theorem Cursor.name_of_name? {l : Lexeme} {word : String} (named : l.name? = some word)
    {rest : List Lexeme} {stop : Nat} (unqualified : atPunct ⟨rest, stop⟩ '.' = false) :
    name ⟨l :: rest, stop⟩ = .ok (word, ⟨rest, stop⟩) := by
  cases rest with
  | nil => simp [name, nameFrom, named]
  | cons dot rest =>
      have undotted : dot.token.isPunct '.' = false := by simpa [atPunct] using unqualified
      simp [name, nameFrom, named, undotted]

theorem NameSyntax.name_cons (s : NameSyntax) {rest : List Lexeme} {stop : Nat}
    (unqualified : Cursor.atPunct ⟨rest, stop⟩ '.' = false) :
    Cursor.name ⟨s.lexeme :: rest, stop⟩ = .ok (s.name, ⟨rest, stop⟩) :=
  Cursor.name_of_name? s.name?_lexeme unqualified

theorem NameSyntax.atAnyKeyword_cons (s : NameSyntax) (words : List String) (rest : List Lexeme)
    (stop : Nat) : Cursor.atAnyKeyword ⟨s.lexeme :: rest, stop⟩ words = false := by
  simp [Cursor.atAnyKeyword, Cursor.atKeyword, s.spelled, Token.isKeyword]

namespace KeyPart

/-- The column of a key in a new table. -/
def indexColumn (s : KeyPart) : IndexColumn where
  name := s.column.name
  length := s.length.bind fun given => length? given.number.raw

theorem indexColumn_lexemes (s : KeyPart) (stop : Nat) :
    Cursor.indexColumn ⟨s.lexemes, stop⟩ = .ok s.indexColumn := by
  cases given : s.length with
  | none =>
      have name : Cursor.name ⟨[s.column.lexeme], stop⟩ = .ok (s.column.name, ⟨[], stop⟩) :=
        s.column.name_cons rfl
      simp only [lexemes, given, Option.map_none, Option.getD_none, Cursor.indexColumn, name,
        indexColumn, Option.bind_none]
      rfl
  | some length =>
      have unqualified : Cursor.atPunct ⟨length.lexemes, stop⟩ '.' = false := by
        simp [Cursor.atPunct, LengthSyntax.lexemes, length.opens, Token.isPunct]
      have opened : Cursor.atPunct ⟨length.lexemes, stop⟩ '(' = true := by
        simp [Cursor.atPunct, LengthSyntax.lexemes, length.opens, Token.isPunct]
      have group : Cursor.group ⟨length.lexemes, stop⟩ = .ok ([length.number], ⟨[], stop⟩) :=
        Cursor.group_balanced length.opens (.flat length.flat_number .nil) length.closes [] stop
      have name := s.column.name_cons unqualified
      simp only [lexemes, given, Option.map_some, Option.getD_some, Cursor.indexColumn, name,
        indexColumn, Option.bind_some, bind, Except.bind, opened, group, if_true]
      rfl

theorem indexColumns_map (parts : List KeyPart) :
    Cursor.indexColumns (parts.map lexemes) = .ok (parts.map indexColumn) := by
  induction parts with
  | nil => rfl
  | cons part parts ih =>
      have column := part.indexColumn_lexemes (Cursor.ofSlice part.lexemes).stop
      have slice : (Cursor.ofSlice part.lexemes).indexColumn = .ok part.indexColumn := column
      simp only [List.map_cons, Cursor.indexColumns, slice, ih]
      rfl

end KeyPart

namespace KeyColumns

/-- The columns of a key in a new table. -/
def indexColumns (s : KeyColumns) : List IndexColumn :=
  s.parts.map KeyPart.indexColumn

theorem name_indexColumns (s : KeyColumns) : s.indexColumns.map IndexColumn.name = s.names := by
  simp [indexColumns, names, KeyPart.indexColumn]

theorem indexColumns_inside (s : KeyColumns) :
    Cursor.indexColumns (commaParts s.inside) = .ok s.indexColumns := by
  rw [s.commaParts_inside]
  exact KeyPart.indexColumns_map s.parts

theorem atPunct_lexemes (s : KeyColumns) (mark : Char) (rest : List Lexeme) (stop : Nat) :
    Cursor.atPunct ⟨s.lexemes ++ rest, stop⟩ mark = ('(' == mark) := by
  simp [Cursor.atPunct, lexemes, s.opens, Token.isPunct]

end KeyColumns

namespace ActionSyntax

theorem atPunct_flatMap (actions : List ActionSyntax) (mark : Char) (stop : Nat) :
    Cursor.atPunct ⟨actions.flatMap lexemes, stop⟩ mark = false := by
  cases actions with
  | nil => rfl
  | cons s actions => simp [Cursor.atPunct, lexemes, s.eventSpelled, Token.isPunct]

theorem referenceOptionsFrom_flatMap (actions : List ActionSyntax) (stop : Nat) :
    Cursor.referenceOptionsFrom stop (actions.flatMap lexemes) = .ok (actions.map option, []) := by
  induction actions with
  | nil => rfl
  | cons s actions ih =>
      simp only [List.flatMap_cons, lexemes, List.cons_append, List.nil_append,
        Cursor.referenceOptionsFrom, s.eventSpelled, s.actionSpelled, Token.keyword?,
        Option.bind_some, s.isEvent, s.isAction, ih]
      rfl

end ActionSyntax

namespace ReferenceSyntax

theorem unqualified_tail (s : ReferenceSyntax) (stop : Nat) :
    Cursor.atPunct ⟨s.tail, stop⟩ '.' = false := by
  cases given : s.columns with
  | none => simpa [tail, given] using ActionSyntax.atPunct_flatMap s.actions '.' stop
  | some columns =>
      simp only [tail, given, Option.map_some, Option.getD_some, columns.atPunct_lexemes]
      decide

theorem references_lexemes (s : ReferenceSyntax) (stop : Nat) :
    Cursor.references ⟨s.lexemes, stop⟩ = .ok (s.target, ⟨[], stop⟩) := by
  have head : Cursor.expectKeyword ⟨s.lexemes, stop⟩ "REFERENCES" =
      .ok ⟨s.table.lexeme :: s.tail, stop⟩ := by
    simp [Cursor.expectKeyword, Cursor.atKeyword, lexemes, s.spelled, Token.isKeyword, Cursor.next]
  have name := s.table.name_cons (s.unqualified_tail stop)
  have options := ActionSyntax.referenceOptionsFrom_flatMap s.actions stop
  simp only [Cursor.references, head, name, bind, Except.bind]
  cases given : s.columns with
  | none =>
      have closed := ActionSyntax.atPunct_flatMap s.actions '(' stop
      simp [tail, given, closed, options, target, pure, Except.pure]
  | some columns =>
      have opened := columns.atPunct_lexemes '(' (s.actions.flatMap ActionSyntax.lexemes) stop
      have group := columns.group_lexemes (s.actions.flatMap ActionSyntax.lexemes) stop
      simp [tail, given, opened, group, columns.indexColumns_inside, columns.name_indexColumns,
        options, target, pure, Except.pure]

end ReferenceSyntax

/-- The kind of key of a keyword. -/
def indexKind (word : String) : KeyKind :=
  (KeyKind.ofKeyword? word).getD .index

theorem ofKeyword?_of_mem {word : String} (listed : word ∈ indexWords) :
    KeyKind.ofKeyword? word = some (indexKind word) := by
  have words : ∀ word ∈ indexWords, KeyKind.ofKeyword? word = some (indexKind word) := by decide
  exact words word listed

theorem indexKind_of_mem {word : String} (listed : word ∈ indexWords) :
    indexKind word ≠ .primary ∧ indexKind word ≠ .foreign := by
  have words : ∀ word ∈ indexWords, indexKind word ≠ .primary ∧ indexKind word ≠ .foreign := by
    decide
  exact words word listed

theorem mem_keyClauseWords {word : String} (listed : word ∈ indexWords) :
    word ∈ keyClauseWords := by
  have words : ∀ word ∈ indexWords, word ∈ keyClauseWords := by decide
  exact words word listed

theorem Cursor.atAnyKeyword_cons {head : Lexeme} {word : String} {words : List String}
    (spelled : head.token = .keyword word) (listed : word ∈ words) (rest : List Lexeme)
    (stop : Nat) : atAnyKeyword ⟨head :: rest, stop⟩ words = true := by
  simp [atAnyKeyword, atKeyword, spelled, Token.isKeyword, listed]

namespace KeySyntax

theorem keyName_append (name : Option NameSyntax) (columns : KeyColumns) (rest : List Lexeme)
    (stop : Nat) :
    Cursor.keyName ⟨nameLexemes name ++ (columns.lexemes ++ rest), stop⟩ =
      .ok (name.map NameSyntax.name, ⟨columns.lexemes ++ rest, stop⟩) := by
  cases name with
  | none =>
      have opened := columns.atPunct_lexemes '(' rest stop
      simp [Cursor.keyName, nameLexemes, opened]
  | some name =>
      have read := name.name_cons (columns.atPunct_lexemes '.' rest stop)
      have closed : Cursor.atPunct ⟨name.lexeme :: (columns.lexemes ++ rest), stop⟩ '(' = false := by
        simp [Cursor.atPunct, name.spelled, Token.isPunct]
      simp only [nameLexemes, Option.map_some, Option.toList_some, List.singleton_append,
        Cursor.keyName, closed, read]
      rfl

theorem keyClause_columns {head : Lexeme} {word : String} {kind : KeyKind}
    (spelled : head.token = .keyword word) (declares : KeyKind.ofKeyword? word = some kind)
    (name : Option NameSyntax) (columns : KeyColumns) (rest : List Lexeme) (stop : Nat) :
    Cursor.keyClause ⟨head :: (nameLexemes name ++ (columns.lexemes ++ rest)), stop⟩ =
      if kind = .foreign then
        (Cursor.references ⟨rest, stop⟩).map fun read =>
          some ⟨kind, name.map NameSyntax.name, columns.indexColumns, some read.1⟩
      else .ok (some ⟨kind, name.map NameSyntax.name, columns.indexColumns, none⟩) := by
  have next : Cursor.next ⟨head :: (nameLexemes name ++ (columns.lexemes ++ rest)), stop⟩ =
      ⟨nameLexemes name ++ (columns.lexemes ++ rest), stop⟩ := rfl
  have listed : columns.indexColumns.isEmpty = false := by
    simpa [KeyColumns.indexColumns] using columns.nonempty
  simp only [Cursor.keyClause, Cursor.keyword?, List.head?_cons, Option.bind_some, spelled,
    Token.keyword?, declares, next, keyName_append, columns.group_lexemes,
    columns.indexColumns_inside, bind, Except.bind, listed, Bool.false_eq_true, if_false]
  split
  · cases Cursor.references ⟨rest, stop⟩ <;> rfl
  · rfl

def symbol? (constraint : Option ConstraintSyntax) : Option String :=
  constraint.bind fun given => given.symbol.map NameSyntax.name

/-- The field that the clause is in a new table. -/
def field : KeySyntax → Field
  | index _ word _ _ name columns =>
    { key := some ⟨indexKind word, name.map NameSyntax.name, columns.indexColumns, none⟩ }
  | foreign constraint _ _ columns reference =>
    { name := symbol? constraint
      key := some ⟨.foreign, none, columns.indexColumns, some reference.target⟩ }

theorem keyClause_foreign {head : Lexeme} (spelled : head.token = .keyword "FOREIGN KEY")
    (columns : KeyColumns) (reference : ReferenceSyntax) (stop : Nat) :
    Cursor.keyClause ⟨head :: (columns.lexemes ++ reference.lexemes), stop⟩ =
      .ok (some ⟨.foreign, none, columns.indexColumns, some reference.target⟩) := by
  have read := keyClause_columns spelled rfl none columns reference.lexemes stop
  rw [if_pos rfl, reference.references_lexemes] at read
  exact read

theorem definition_key {head : Lexeme} {word : String} {key : Key} {rest : List Lexeme} {stop : Nat}
    (spelled : head.token = .keyword word) (listed : word ∈ keyClauseWords)
    (unconstrained : word ≠ "CONSTRAINT")
    (clause : Cursor.keyClause ⟨head :: rest, stop⟩ = .ok (some key)) :
    Cursor.definition ⟨head :: rest, stop⟩ = .ok (some { key := some key }) := by
  have opened := Cursor.atAnyKeyword_cons spelled listed rest stop
  have other : Cursor.atKeyword ⟨head :: rest, stop⟩ "CONSTRAINT" = false := by
    simp [Cursor.atKeyword, spelled, Token.isKeyword, unconstrained]
  simp only [Cursor.definition, opened, other, if_true, Bool.false_eq_true, if_false, bind,
    Except.bind, pure, Except.pure, clause]
  rfl

theorem definition_constraint (constraint : ConstraintSyntax) {head : Lexeme} {word : String}
    {key : Key} {rest : List Lexeme} {stop : Nat} (spelled : head.token = .keyword word)
    (listed : word ∈ keyClauseWords)
    (clause : Cursor.keyClause ⟨head :: rest, stop⟩ = .ok (some key)) :
    Cursor.definition ⟨constraint.head :: (nameLexemes constraint.symbol ++ head :: rest), stop⟩ =
      .ok (some { name := constraint.symbol.map NameSyntax.name, key := some key }) := by
  have opened := Cursor.atAnyKeyword_cons constraint.spelled (by decide : _ ∈ keyClauseWords)
    (nameLexemes constraint.symbol ++ head :: rest) stop
  have here : Cursor.atKeyword
      ⟨constraint.head :: (nameLexemes constraint.symbol ++ head :: rest), stop⟩ "CONSTRAINT" =
        true := by
    simp [Cursor.atKeyword, constraint.spelled, Token.isKeyword]
  have next : Cursor.next
      ⟨constraint.head :: (nameLexemes constraint.symbol ++ head :: rest), stop⟩ =
        ⟨nameLexemes constraint.symbol ++ head :: rest, stop⟩ := rfl
  simp only [Cursor.definition, opened, here, next, if_true, bind, Except.bind, pure, Except.pure]
  cases constraint.symbol with
  | none =>
      have keyed := Cursor.atAnyKeyword_cons spelled listed rest stop
      simp only [nameLexemes, Option.map_none, Option.toList_none, List.nil_append, keyed, if_true,
        clause]
      rfl
  | some symbol =>
      have unqualified : Cursor.atPunct ⟨head :: rest, stop⟩ '.' = false := by
        simp [Cursor.atPunct, spelled, Token.isPunct]
      simp only [nameLexemes, Option.map_some, Option.toList_some, List.singleton_append,
        symbol.atAnyKeyword_cons, Bool.false_eq_true, if_false, symbol.name_cons unqualified, clause]

theorem definition_lexemes (s : KeySyntax) (stop : Nat) :
    Cursor.definition ⟨s.lexemes, stop⟩ = .ok (some s.field) := by
  cases s with
  | index head word spelled listed name columns =>
      have unconstrained : ∀ word ∈ indexWords, word ≠ "CONSTRAINT" := by decide
      have clause := keyClause_columns spelled (ofKeyword?_of_mem listed) name columns [] stop
      rw [if_neg (indexKind_of_mem listed).2, List.append_nil] at clause
      exact definition_key spelled (mem_keyClauseWords listed) (unconstrained word listed) clause
  | foreign constraint head spelled columns reference =>
      have clause := keyClause_foreign spelled columns reference stop
      cases constraint with
      | none => exact definition_key spelled (by decide) (by decide) clause
      | some constraint => exact definition_constraint constraint spelled (by decide) clause

end KeySyntax

/-! ## In a clause -/

namespace Lexeme

theorem withoutLengths_flat {l : Lexeme} (flat : l.Flat) {depth : Nat} (shallow : depth ≤ 1)
    (rest : List Lexeme) : withoutLengths depth (l :: rest) = l :: withoutLengths depth rest := by
  simp [withoutLengths, flat.1, flat.2, shallow]

theorem withoutLengths_open {l : Lexeme} (opens : l.token = .punct '(') (rest : List Lexeme) :
    withoutLengths 0 (l :: rest) = l :: withoutLengths 1 rest := by
  simp [withoutLengths, opens, Token.isPunct]

theorem withoutLengths_close {l : Lexeme} (closes : l.token = .punct ')') (rest : List Lexeme) :
    withoutLengths 1 (l :: rest) = l :: withoutLengths 0 rest := by
  simp [withoutLengths, closes, Token.isPunct]

theorem keyRemainder_cons {l : Lexeme} (flat : l.Flat) (plain : l.introducesName = false)
    (rest : List Lexeme) : keyRemainder (l :: rest) = l.token :: keyRemainder rest := by
  rw [keyRemainder, withoutLengths_flat flat (Nat.zero_le 1), remainder, clauseTokens_flat flat,
    plain]
  rfl

end Lexeme

theorem LengthSyntax.withoutLengths_append (s : LengthSyntax) (rest : List Lexeme) :
    withoutLengths 1 (s.lexemes ++ rest) = withoutLengths 1 rest := by
  simp [lexemes, withoutLengths, s.opens, s.numeral, s.closes, Token.isPunct]

theorem KeyPart.withoutLengths_append (s : KeyPart) (rest : List Lexeme) :
    withoutLengths 1 (s.lexemes ++ rest) = s.column.lexeme :: withoutLengths 1 rest := by
  rw [lexemes, List.cons_append, withoutLengths_flat s.column.flat (Nat.le_refl 1)]
  cases s.length with
  | none => rfl
  | some length => exact congrArg (s.column.lexeme :: ·) (length.withoutLengths_append rest)

namespace KeyColumns

/-- The columns with the commas between them, without lengths. -/
def bare (s : KeyColumns) : List Lexeme :=
  withoutLengths 1 s.inside

theorem separated_withoutLengths {parts : List KeyPart} {inside : List Lexeme}
    (h : Separated (parts.map KeyPart.lexemes) inside) :
    Separated (parts.map fun part => [part.column.lexeme]) (withoutLengths 1 inside) ∧
      ∀ rest, withoutLengths 1 (inside ++ rest) = withoutLengths 1 inside ++ withoutLengths 1 rest := by
  -- A length opens and closes its own group, so after each part the depth is one again.
  generalize listed : parts.map KeyPart.lexemes = lists at h
  induction h generalizing parts with
  | one part =>
      obtain ⟨s, rfl, rfl⟩ := List.map_eq_singleton_iff.mp listed
      have alone := s.withoutLengths_append []
      rw [List.append_nil] at alone
      rw [alone]
      exact ⟨.one _, fun rest => s.withoutLengths_append rest⟩
  | @cons part comma lists inside mark _ ih =>
      obtain ⟨s, later, rfl, rfl, others⟩ := List.map_eq_cons_iff.mp listed
      have flat : comma.Flat := by simp [Flat, mark, Token.isPunct]
      obtain ⟨separated, append⟩ := ih others
      have strip (rest : List Lexeme) : withoutLengths 1 (s.lexemes ++ comma :: rest) =
          s.column.lexeme :: comma :: withoutLengths 1 rest := by
        rw [s.withoutLengths_append, withoutLengths_flat flat (Nat.le_refl 1)]
      refine ⟨?_, fun rest => ?_⟩
      · rw [strip]
        exact .cons [s.column.lexeme] mark separated
      · rw [List.append_assoc, List.cons_append, strip, strip, append]
        rfl

theorem part_of_name (s : KeyColumns) :
    ∀ l ∈ s.parts.map fun part => part.column.lexeme, Part [l] := by
  intro l member
  obtain ⟨part, _, rfl⟩ := List.mem_map.mp member
  exact part.column.part

theorem separated_bare (s : KeyColumns) :
    Separated ((s.parts.map fun part => part.column.lexeme).map ([·])) s.bare := by
  rw [List.map_map]
  exact (separated_withoutLengths s.separated).1

theorem balanced_bare (s : KeyColumns) : Balanced s.bare := by
  apply s.separated_bare.balanced
  intro part member
  obtain ⟨l, listed, rfl⟩ := List.mem_map.mp member
  exact (s.part_of_name l listed).balanced

def tokens (s : KeyColumns) : List Token :=
  .punct '(' :: (s.bare.map asIdentifier ++ [.punct ')'])

theorem keyRemainder_append (s : KeyColumns) (rest : List Lexeme) :
    keyRemainder (s.lexemes ++ rest) = s.tokens ++ keyRemainder rest := by
  have stripped : withoutLengths 0 (s.lexemes ++ rest) =
      s.opening :: (s.bare ++ s.closing :: withoutLengths 0 rest) := by
    rw [lexemes, List.cons_append, List.append_assoc, List.singleton_append,
      withoutLengths_open s.opens, (separated_withoutLengths s.separated).2,
      withoutLengths_close s.closes]
    rfl
  rw [keyRemainder, stripped, remainder, clauseTokens_group s.opens s.balanced_bare s.closes]
  simp [tokens, keyRemainder, remainder]

theorem keyRemainder_lexemes (s : KeyColumns) : keyRemainder s.lexemes = s.tokens := by
  have alone := s.keyRemainder_append []
  rw [List.append_nil] at alone
  rw [alone]
  exact List.append_nil s.tokens

end KeyColumns

theorem ReferenceEvent.plain_of_ofKeyword? {word : String} {event : ReferenceEvent}
    (h : ofKeyword? word = some event) : nameIntroducers.any (word == ·) = false := by
  unfold ofKeyword? at h
  split at h
  · decide
  · decide
  · contradiction

theorem ReferenceAction.plain_of_ofKeyword? {word : String} {action : ReferenceAction}
    (h : ofKeyword? word = some action) :
    nameIntroducers.any (word == ·) = false ∧ ReferenceEvent.ofKeyword? word = none := by
  unfold ofKeyword? at h
  split at h
  case h_6 => contradiction
  all_goals decide

namespace ActionSyntax

def tokens (s : ActionSyntax) : List Token :=
  [.keyword s.eventWord, .keyword s.actionWord]

theorem keyRemainder_flatMap (actions : List ActionSyntax) :
    keyRemainder (actions.flatMap lexemes) = actions.flatMap tokens := by
  induction actions with
  | nil => rfl
  | cons s actions ih =>
      have event : s.event.introducesName = false := by
        rw [introducesName_keyword s.eventSpelled]
        exact ReferenceEvent.plain_of_ofKeyword? s.isEvent
      have action : s.action.introducesName = false := by
        rw [introducesName_keyword s.actionSpelled]
        exact (ReferenceAction.plain_of_ofKeyword? s.isAction).1
      rw [List.flatMap_cons, List.flatMap_cons, lexemes, List.cons_append, List.singleton_append,
        keyRemainder_cons (flat_of_keyword s.eventSpelled) event,
        keyRemainder_cons (flat_of_keyword s.actionSpelled) action, ih, s.eventSpelled,
        s.actionSpelled]
      rfl

end ActionSyntax

namespace ReferenceSyntax

def tailTokens (s : ReferenceSyntax) : List Token :=
  (s.columns.map KeyColumns.tokens).getD [] ++ s.actions.flatMap ActionSyntax.tokens

def tokens (s : ReferenceSyntax) : List Token :=
  .keyword "REFERENCES" :: .identifier s.table.name :: s.tailTokens

theorem keyRemainder_tail (s : ReferenceSyntax) : keyRemainder s.tail = s.tailTokens := by
  cases given : s.columns with
  | none =>
      simp only [tail, tailTokens, given]
      exact ActionSyntax.keyRemainder_flatMap s.actions
  | some columns =>
      simp only [tail, tailTokens, given, Option.map_some, Option.getD_some]
      rw [columns.keyRemainder_append, ActionSyntax.keyRemainder_flatMap]

theorem keyRemainder_lexemes (s : ReferenceSyntax) : keyRemainder s.lexemes = s.tokens := by
  have flat : s.head.Flat := flat_of_keyword s.spelled
  have introduces : s.head.introducesName = true := by
    rw [introducesName_keyword s.spelled]
    decide
  rw [lexemes, keyRemainder, withoutLengths_flat flat (Nat.zero_le 1),
    withoutLengths_flat s.table.flat (Nat.zero_le 1), remainder, clauseTokens_flat flat,
    introduces, clauseTokens_flat s.table.flat, s.table.introducesName_lexeme, if_pos rfl,
    s.table.asIdentifier_lexeme, s.spelled, tokens, ← s.keyRemainder_tail]
  rfl

end ReferenceSyntax

theorem Cursor.addClause_key {head : Lexeme} {word : String} (spelled : head.token = .keyword word)
    (listed : word ∈ keyClauseWords)
    (other : ¬(word = "INDEX" ∨ word = "KEY" ∨ word = "CONSTRAINT")) (rest : List Lexeme)
    (stop : Nat) :
    addClause ⟨head :: rest, stop⟩ = .ok ⟨["ADD"], none, keyRemainder (head :: rest)⟩ := by
  have uncolumned : ∀ word ∈ keyClauseWords, word ≠ "COLUMN" := by decide
  have here : keyword? ⟨head :: rest, stop⟩ = some word := by
    simp [keyword?, spelled, Token.keyword?]
  simp [addClause, here, uncolumned word listed, other, listed]

theorem Cursor.addClause_named {head : Lexeme} {word : String} {rest : List Lexeme} {stop : Nat}
    (spelled : head.token = .keyword word)
    (listed : word = "INDEX" ∨ word = "KEY" ∨ word = "CONSTRAINT") (name : Option NameSyntax)
    (starts : (atPunct ⟨rest, stop⟩ '(' || atAnyKeyword ⟨rest, stop⟩ keyClauseWords) = true)
    (unqualified : atPunct ⟨rest, stop⟩ '.' = false) :
    addClause ⟨head :: (KeySyntax.nameLexemes name ++ rest), stop⟩ =
      .ok ⟨["ADD", word], name.map NameSyntax.name, keyRemainder rest⟩ := by
  have uncolumned : word ≠ "COLUMN" := by
    rcases listed with rfl | rfl | rfl
    · decide
    · decide
    · decide
  have here : keyword? ⟨head :: (KeySyntax.nameLexemes name ++ rest), stop⟩ = some word := by
    simp [keyword?, spelled, Token.keyword?]
  have next : next ⟨head :: (KeySyntax.nameLexemes name ++ rest), stop⟩ =
      ⟨KeySyntax.nameLexemes name ++ rest, stop⟩ := rfl
  simp only [addClause, here, listed, if_true, next]
  cases name with
  | none =>
      have starts : (atPunct ⟨KeySyntax.nameLexemes none ++ rest, stop⟩ '(' ||
          atAnyKeyword ⟨KeySyntax.nameLexemes none ++ rest, stop⟩ keyClauseWords) = true := starts
      rw [if_pos starts]
      rfl
  | some name =>
      have named : (atPunct ⟨KeySyntax.nameLexemes (some name) ++ rest, stop⟩ '(' ||
          atAnyKeyword ⟨KeySyntax.nameLexemes (some name) ++ rest, stop⟩ keyClauseWords) = false := by
        have unkeyed := name.atAnyKeyword_cons keyClauseWords rest stop
        simp [KeySyntax.nameLexemes, unkeyed, atPunct, name.spelled, Token.isPunct]
      have read : Cursor.name ⟨KeySyntax.nameLexemes (some name) ++ rest, stop⟩ =
          .ok (name.name, ⟨rest, stop⟩) := name.name_cons unqualified
      rw [if_neg (by rw [named]; exact Bool.false_ne_true), read]
      rfl

namespace KeySyntax

def nameTokens (name : Option NameSyntax) : List Token :=
  (name.map fun given => .identifier given.name).toList

theorem keyRemainder_nameLexemes (name : Option NameSyntax) (rest : List Lexeme) :
    keyRemainder (nameLexemes name ++ rest) = nameTokens name ++ keyRemainder rest := by
  cases name with
  | none => rfl
  | some name =>
      have token := keyRemainder_cons name.flat name.introducesName_lexeme rest
      rw [name.spelled] at token
      exact token

/-- The operation that the clause is in an alteration. -/
def operation : KeySyntax → AlterOperation
  | index _ word _ _ name columns =>
    if word = "INDEX" ∨ word = "KEY" then
      ⟨["ADD", word], name.map NameSyntax.name, columns.tokens⟩
    else ⟨["ADD"], none, .keyword word :: (nameTokens name ++ columns.tokens)⟩
  | foreign (some constraint) _ _ columns reference =>
    ⟨["ADD", "CONSTRAINT"], constraint.symbol.map NameSyntax.name,
      .keyword "FOREIGN KEY" :: (columns.tokens ++ reference.tokens)⟩
  | foreign none _ _ columns reference =>
    ⟨["ADD"], none, .keyword "FOREIGN KEY" :: (columns.tokens ++ reference.tokens)⟩

theorem keyRemainder_index {head : Lexeme} {word : String} (spelled : head.token = .keyword word)
    (listed : word ∈ indexWords) (name : Option NameSyntax) (columns : KeyColumns) :
    keyRemainder (head :: (nameLexemes name ++ columns.lexemes)) =
      .keyword word :: (nameTokens name ++ columns.tokens) := by
  have plain : ∀ word ∈ indexWords, nameIntroducers.any (word == ·) = false := by decide
  rw [keyRemainder_cons (flat_of_keyword spelled)
      ((introducesName_keyword spelled).trans (plain word listed)),
    keyRemainder_nameLexemes, columns.keyRemainder_lexemes, spelled]

theorem keyRemainder_foreign {head : Lexeme} (spelled : head.token = .keyword "FOREIGN KEY")
    (columns : KeyColumns) (reference : ReferenceSyntax) :
    keyRemainder (head :: (columns.lexemes ++ reference.lexemes)) =
      .keyword "FOREIGN KEY" :: (columns.tokens ++ reference.tokens) := by
  have plain : nameIntroducers.any ("FOREIGN KEY" == ·) = false := by decide
  rw [keyRemainder_cons (flat_of_keyword spelled) ((introducesName_keyword spelled).trans plain),
    columns.keyRemainder_append, reference.keyRemainder_lexemes, spelled]

theorem addClause_lexemes (s : KeySyntax) (stop : Nat) :
    Cursor.addClause ⟨s.lexemes, stop⟩ = .ok s.operation := by
  cases s with
  | index head word spelled listed name columns =>
      by_cases plain : word = "INDEX" ∨ word = "KEY"
      · have opened := columns.atPunct_lexemes '(' [] stop
        have unqualified := columns.atPunct_lexemes '.' [] stop
        rw [List.append_nil] at opened unqualified
        have read := Cursor.addClause_named spelled (plain.imp_right .inl) name
          (by rw [opened]; rfl) unqualified
        rw [columns.keyRemainder_lexemes] at read
        rw [lexemes, read, operation, if_pos plain]
      · have unconstrained : ∀ word ∈ indexWords, word ≠ "CONSTRAINT" := by decide
        have other : ¬(word = "INDEX" ∨ word = "KEY" ∨ word = "CONSTRAINT") := by
          rw [← or_assoc]
          exact not_or.mpr ⟨plain, unconstrained word listed⟩
        rw [lexemes, Cursor.addClause_key spelled (mem_keyClauseWords listed) other,
          keyRemainder_index spelled listed, operation, if_neg plain]
  | foreign constraint head spelled columns reference =>
      have tokens := keyRemainder_foreign spelled columns reference
      cases constraint with
      | none =>
          have read := Cursor.addClause_key spelled (by decide) (by decide)
            (columns.lexemes ++ reference.lexemes) stop
          rw [tokens] at read
          exact read
      | some constraint =>
          have keyed := Cursor.atAnyKeyword_cons spelled (by decide : _ ∈ keyClauseWords)
            (columns.lexemes ++ reference.lexemes) stop
          have unqualified : Cursor.atPunct
              ⟨head :: (columns.lexemes ++ reference.lexemes), stop⟩ '.' = false := by
            simp [Cursor.atPunct, spelled, Token.isPunct]
          have read := Cursor.addClause_named constraint.spelled (.inr (.inr rfl))
            constraint.symbol (by rw [keyed, Bool.or_true]) unqualified
          rw [tokens] at read
          exact read

theorem alterClause_lexemes (s : KeySyntax) {add : Lexeme} (hadd : add.token = .keyword "ADD")
    (stop : Nat) : Cursor.alterClause ⟨add :: s.lexemes, stop⟩ = .ok s.operation := by
  have next : Cursor.next ⟨add :: s.lexemes, stop⟩ = ⟨s.lexemes, stop⟩ := rfl
  simp [Cursor.alterClause, hadd, Token.keyword?, next, s.addClause_lexemes]

end KeySyntax

end TableShift
