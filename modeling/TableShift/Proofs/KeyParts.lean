import TableShift.Migration.Batch
import TableShift.Proofs.KeyAgreement
import TableShift.Sql.Script

/-! # The columns of an added key

A part of a key is a column, possibly with a length in parentheses and a direction. A clause
that adds a key keeps every word of its parts besides the lengths: a direction counts as a
column of its own. So a key is on its columns exactly if no part has a direction.
-/

namespace TableShift

open Lexeme

/-! ## Parts as they are written -/

/-- `ASC` or `DESC`, in any case. -/
structure DirectionSyntax where
  lexeme : Lexeme
  word : String
  spelled : lexeme.token = .identifier word
  listed : upperAscii word ∈ ["ASC", "DESC"]

/-- A column of a key under any name, with its length and its direction if it has them. -/
structure OrderedPart where
  column : Lexeme
  name : String
  named : column.name? = some name
  length : Option LengthSyntax
  direction : Option DirectionSyntax

namespace OrderedPart

def lexemes (s : OrderedPart) : List Lexeme :=
  s.column :: ((s.length.map LengthSyntax.lexemes).getD [] ++
    (s.direction.map DirectionSyntax.lexeme).toList)

/-- The lexemes besides the length. -/
def kept (s : OrderedPart) : List Lexeme :=
  s.column :: (s.direction.map DirectionSyntax.lexeme).toList

/-- The words that a clause takes for columns. -/
def words (s : OrderedPart) : List String :=
  s.name :: (s.direction.map DirectionSyntax.word).toList

theorem text_column (s : OrderedPart) : s.column.asIdentifier.text = s.name := by
  simp [asIdentifier, s.named, Token.text, Token.toValue, Token.sql, Value.text]

theorem uncut_column (s : OrderedPart) : s.column.token.isPunct ',' = false := by
  cases token : s.column.token with
  | punct mark => simpa [name?, token] using s.named
  | keyword | identifier | literal => rfl

theorem flat_kept (s : OrderedPart) : ∀ l ∈ s.kept, l.Flat := by
  have column : s.column.Flat := flat_of_name? s.named
  cases given : s.direction with
  | none => simpa [kept, given] using column
  | some direction =>
      have flat : direction.lexeme.Flat := by simp [Flat, direction.spelled, Token.isPunct]
      simpa [kept, given] using ⟨column, flat⟩

theorem texts_kept (s : OrderedPart) :
    (s.kept.filter (!·.token.isPunct ',')).map (·.asIdentifier.text) = s.words := by
  cases given : s.direction with
  | none => simp [kept, words, given, s.uncut_column, s.text_column]
  | some direction =>
      have uncut : direction.lexeme.token.isPunct ',' = false := by
        simp [direction.spelled, Token.isPunct]
      have text : direction.lexeme.asIdentifier.text = direction.word := by
        simp [asIdentifier, name?, direction.spelled, Token.text, Token.toValue, Token.sql,
          Value.text]
      simp [kept, words, given, s.uncut_column, s.text_column, uncut, text]

/-- Words that are as many as the parts leave no room for a direction. -/
theorem flatMap_words_eq_iff (parts : List OrderedPart) :
    parts.flatMap words = parts.map name ↔ ∀ part ∈ parts, part.direction = none := by
  have least (parts : List OrderedPart) : parts.length ≤ (parts.flatMap words).length := by
    induction parts with
    | nil => simp
    | cons part parts ih =>
        simp only [List.flatMap_cons, List.length_append, List.length_cons, words]
        omega
  constructor
  · intro same
    induction parts with
    | nil => simp
    | cons part parts ih =>
        have count := congrArg List.length same
        have others := least parts
        cases given : part.direction with
        | none =>
            simp only [List.flatMap_cons, List.map_cons, words, given, Option.map_none,
              Option.toList_none, List.singleton_append, List.cons.injEq, true_and] at same
            exact List.forall_mem_cons.mpr ⟨given, ih same⟩
        | some direction =>
            simp only [List.flatMap_cons, List.length_append, List.length_cons, List.length_map,
              words, given, Option.map_some, Option.toList_some, List.length_nil] at count
            omega
  · intro plain
    induction parts with
    | nil => rfl
    | cons part parts ih =>
        rw [List.forall_mem_cons] at plain
        simp [words, plain.1, ih plain.2]

/-- The length of a part is left out, its direction is not. -/
theorem withoutLengths_append (s : OrderedPart) (rest : List Lexeme) :
    withoutLengths 1 (s.lexemes ++ rest) = s.kept ++ withoutLengths 1 rest := by
  have flat := s.flat_kept
  have direction : withoutLengths 1 ((s.direction.map DirectionSyntax.lexeme).toList ++ rest) =
      (s.direction.map DirectionSyntax.lexeme).toList ++ withoutLengths 1 rest := by
    cases given : s.direction with
    | none => rfl
    | some direction =>
        have last := flat direction.lexeme (by simp [kept, given])
        exact withoutLengths_flat last (Nat.le_refl 1) rest
  rw [lexemes, List.cons_append, withoutLengths_flat (flat_of_name? s.named) (Nat.le_refl 1),
    List.append_assoc, kept, List.cons_append, ← direction]
  cases s.length with
  | none => rfl
  | some length => exact congrArg (s.column :: ·) (length.withoutLengths_append _)

end OrderedPart

/-- The columns of a key in parentheses, with lengths and directions. -/
structure OrderedColumns where
  opening : Lexeme
  closing : Lexeme
  parts : List OrderedPart
  /-- The parts with the commas between them. -/
  inside : List Lexeme
  opens : opening.token = .punct '('
  closes : closing.token = .punct ')'
  nonempty : parts ≠ []
  separated : Separated (parts.map OrderedPart.lexemes) inside

namespace OrderedColumns

def lexemes (s : OrderedColumns) : List Lexeme :=
  s.opening :: (s.inside ++ [s.closing])

def names (s : OrderedColumns) : List String :=
  s.parts.map OrderedPart.name

/-- The words that a clause takes for columns. -/
def words (s : OrderedColumns) : List String :=
  s.parts.flatMap OrderedPart.words

/-- Whether no part of the key has a direction. -/
def Undirected (s : OrderedColumns) : Prop :=
  ∀ part ∈ s.parts, part.direction = none

theorem words_eq_names_iff (s : OrderedColumns) : s.words = s.names ↔ s.Undirected :=
  OrderedPart.flatMap_words_eq_iff s.parts

theorem words_ne_nil (s : OrderedColumns) : s.words ≠ [] := by
  obtain ⟨part, parts, given⟩ := List.exists_cons_of_ne_nil s.nonempty
  simp [words, given, OrderedPart.words]

theorem withoutLengths_separated {parts : List OrderedPart} {inside : List Lexeme}
    (h : Separated (parts.map OrderedPart.lexemes) inside) :
    ∃ bare : List Lexeme, (∀ l ∈ bare, l.Flat) ∧
      (bare.filter (!·.token.isPunct ',')).map (·.asIdentifier.text) =
        parts.flatMap OrderedPart.words ∧
      ∀ rest, withoutLengths 1 (inside ++ rest) = bare ++ withoutLengths 1 rest := by
  generalize listed : parts.map OrderedPart.lexemes = lists at h
  induction h generalizing parts with
  | one part =>
      obtain ⟨s, rfl, rfl⟩ := List.map_eq_singleton_iff.mp listed
      exact ⟨s.kept, s.flat_kept, by simp [s.texts_kept], s.withoutLengths_append⟩
  | @cons part comma lists inside mark _ ih =>
      obtain ⟨s, later, rfl, rfl, others⟩ := List.map_eq_cons_iff.mp listed
      obtain ⟨bare, flat, texts, strip⟩ := ih others
      have plain : comma.Flat := by simp [Flat, mark, Token.isPunct]
      refine ⟨s.kept ++ comma :: bare, ?_, ?_, fun rest => ?_⟩
      · exact List.forall_mem_append.mpr ⟨s.flat_kept, List.forall_mem_cons.mpr ⟨plain, flat⟩⟩
      · have cut : comma.token.isPunct ',' = true := by simp [mark, Token.isPunct]
        simp [List.filter_append, cut, texts, s.texts_kept]
      · rw [List.append_assoc, List.cons_append, s.withoutLengths_append,
          withoutLengths_flat plain (Nat.le_refl 1), strip, List.append_assoc, List.cons_append]

end OrderedColumns

/-! ## Columns among the tokens of a clause -/

namespace Lexeme

theorem textsToClose?_flat {ls : List Lexeme} (flat : ∀ l ∈ ls, l.Flat) (rest : List Token) :
    textsToClose? (ls.map asIdentifier ++ .punct ')' :: rest) =
      some ((ls.filter (!·.token.isPunct ',')).map (·.asIdentifier.text)) := by
  induction ls with
  | nil => rfl
  | cons l ls ih =>
      rw [List.forall_mem_cons] at flat
      simp only [List.map_cons, List.cons_append, textsToClose?, isPunct_asIdentifier, flat.1.2,
        ih flat.2]
      cases cut : l.token.isPunct ',' <;> simp [cut]

theorem withoutLengths_flat_append {ls : List Lexeme} (flat : ∀ l ∈ ls, l.Flat)
    (rest : List Lexeme) : withoutLengths 0 (ls ++ rest) = ls ++ withoutLengths 0 rest := by
  induction ls with
  | nil => rfl
  | cons l ls ih =>
      rw [List.forall_mem_cons] at flat
      rw [List.cons_append, withoutLengths_flat flat.1 (Nat.zero_le 1), ih flat.2, List.cons_append]

theorem closed_of_clauseTokens {ls : List Lexeme} (flat : ∀ l ∈ ls, l.Flat) (before : Bool) :
    ∀ token ∈ clauseTokens 0 before ls, token.isPunct '(' = false := by
  induction ls generalizing before with
  | nil => simp [clauseTokens]
  | cons l ls ih =>
      rw [List.forall_mem_cons] at flat
      rw [clauseTokens_flat flat.1, List.forall_mem_cons]
      refine ⟨?_, ih flat.2 _⟩
      cases before with
      | true => simpa [isPunct_asIdentifier] using flat.1.1
      | false => simpa using flat.1.1

end Lexeme

namespace OrderedColumns

theorem exists_keyRemainder (s : OrderedColumns) {front : List Lexeme}
    (flat : ∀ l ∈ front, l.Flat) (rest : List Lexeme) :
    ∃ columns : List Token,
      keyRemainder (front ++ (s.lexemes ++ rest)) =
        clauseTokens 0 false front ++ .punct '(' :: columns ∧
      textsToClose? columns = some s.words := by
  obtain ⟨bare, plain, texts, strip⟩ := withoutLengths_separated s.separated
  have stripped : withoutLengths 0 (s.lexemes ++ rest) =
      s.opening :: (bare ++ s.closing :: withoutLengths 0 rest) := by
    rw [lexemes, List.cons_append, List.append_assoc, List.singleton_append,
      withoutLengths_open s.opens, strip, withoutLengths_close s.closes]
  refine ⟨bare.map asIdentifier ++ .punct ')' :: clauseTokens 0 false (withoutLengths 0 rest),
    ?_, ?_⟩
  · rw [keyRemainder, remainder, withoutLengths_flat_append flat, clauseTokens_append,
      foldl_depthAfter_balanced (balanced_of_flat flat), stripped,
      clauseTokens_group s.opens (balanced_of_flat plain) s.closes]
  · rw [textsToClose?_flat plain, texts]
    rfl

end OrderedColumns

theorem parameterTexts_of_closed {tokens columns : List Token} {texts : List String}
    (closed : ∀ token ∈ tokens, token.isPunct '(' = false)
    (h : textsToClose? columns = some texts) :
    parameterTexts (tokens ++ .punct '(' :: columns) = texts := by
  have opened : tokensAfter? (·.isPunct '(') (.punct '(' :: columns) = some columns := rfl
  rw [parameterTexts, tokensAfter?_append closed, opened]
  simp [h]

theorem exists_tokensAfter?_append {condition : Token → Bool} {tokens : List Token}
    (h : tokens.any condition = true) (rest : List Token) :
    ∃ later, tokensAfter? condition (tokens ++ rest) = some (later ++ rest) ∧
      ∀ token ∈ later, token ∈ tokens := by
  induction tokens with
  | nil => simp at h
  | cons token tokens ih =>
      cases here : condition token with
      | true =>
          exact ⟨tokens, by simp [tokensAfter?, here], fun _ => List.mem_cons_of_mem _⟩
      | false =>
          obtain ⟨later, found, members⟩ := ih (by simpa [here] using h)
          exact ⟨later, by simp [tokensAfter?, here, found],
            fun other member => List.mem_cons_of_mem _ (members other member)⟩

/-! ## Added keys -/

/-- The name of a key or a constraint, under any word that can be a name. -/
structure KeyName where
  lexeme : Lexeme
  name : String
  named : lexeme.name? = some name

namespace KeyName

theorem flat (s : KeyName) : s.lexeme.Flat :=
  flat_of_name? s.named

theorem atPunct_cons (s : KeyName) (rest : List Lexeme) (stop : Nat) :
    Cursor.atPunct ⟨s.lexeme :: rest, stop⟩ '(' = false :=
  s.flat.1

/-- The lexeme of a name that may be missing. -/
def lexemes (name : Option KeyName) : List Lexeme :=
  (name.map KeyName.lexeme).toList

theorem flat_lexemes (name : Option KeyName) : ∀ l ∈ lexemes name, l.Flat := by
  cases name with
  | none => simp [lexemes]
  | some name => simpa [lexemes] using name.flat

end KeyName

/-- What follows `ADD` in a clause that adds a key. -/
inductive AddedKey where
  /-- Such as `UNIQUE name (columns)`. -/
  | index (head : Lexeme) (word : String) (spelled : head.token = .keyword word)
      (listed : word ∈ indexWords) (name : Option KeyName) (columns : OrderedColumns)
      (rest : List Lexeme)
  /-- Such as `FOREIGN KEY (columns) REFERENCES table (columns)`. -/
  | foreign (head : Lexeme) (spelled : head.token = .keyword "FOREIGN KEY")
      (columns : OrderedColumns) (rest : List Lexeme)
  /-- The same behind `CONSTRAINT` and possibly a symbol. -/
  | constraint (constraint : Lexeme) (opens : constraint.token = .keyword "CONSTRAINT")
      (symbol : Option KeyName) (head : Lexeme) (spelled : head.token = .keyword "FOREIGN KEY")
      (columns : OrderedColumns) (rest : List Lexeme)

namespace AddedKey

def lexemes : AddedKey → List Lexeme
  | index head _ _ _ name columns rest =>
    head :: (KeyName.lexemes name ++ (columns.lexemes ++ rest))
  | foreign head _ columns rest => head :: (columns.lexemes ++ rest)
  | constraint opening _ symbol head _ columns rest =>
    opening :: (KeyName.lexemes symbol ++ head :: (columns.lexemes ++ rest))

def columns : AddedKey → OrderedColumns
  | index _ _ _ _ _ columns _ | foreign _ _ columns _ | constraint _ _ _ _ _ columns _ => columns

def kind : AddedKey → KeyKind
  | index _ word .. => indexKind word
  | foreign .. | constraint .. => .foreign

/-- The word that names the key, if there is one. -/
def name : AddedKey → Option KeyName
  | index _ _ _ _ name .. => name
  | foreign .. => none
  | constraint _ _ symbol .. => symbol

end AddedKey

/-- An effect that adds a key on some columns: a key with a name is taken back by its name,
    one without by its columns. -/
inductive AddsKey (kind : KeyKind) (columns : List String) (name : Option String) :
    ClauseEffect → Prop where
  | key {method : NameMethod} (drops : kind.dropMethod? = some method) (table : String) :
      AddsKey kind columns name
        ⟨[.key kind columns name], .drop method (AlterOperation.dropTarget name columns), table⟩
  | foreign (isForeign : kind = .foreign) (target : Option References) (table : String) :
      AddsKey kind columns name
        ⟨[.foreign columns name target],
          .drop .dropForeign (AlterOperation.dropTarget name columns), table⟩

theorem AlterKind.classify?_headless {options : List String} {rule : ClauseRule} {kind : AlterKind}
    (found : clauseRules.find? (·.appliesTo options) = some rule) (headless : rule.heads = [])
    (otherwise : rule.otherwise = some kind) (tokens : List Token) :
    classify? options tokens = some (kind, tokens) := by
  rw [classify?, found]
  cases tokens <;> simp [ClauseRule.kind?, headless, otherwise]

namespace AlterOperation

variable (operation : AlterOperation) {columns : List String}

theorem exists_addsKey_of_addedKey? {kind : AlterKind} {tokens : List Token} {key : KeyKind}
    (classified : AlterKind.classify? operation.options operation.tokens = some (kind, tokens))
    (adds : kind.addedKey? = some key) (texts : parameterTexts tokens = columns)
    (some_column : columns ≠ []) (table : String) :
    ∃ effect, operation.effect? table = some effect ∧
      AddsKey key columns (operation.target? tokens) effect := by
  cases kind with
  | addIndex | addUnique | addFullText =>
      cases adds
      exact ⟨_, by simp [effect?, classified, keyEffect?, texts, some_column], .key rfl table⟩
  | _ => simp [AlterKind.addedKey?] at adds

theorem exists_addsKey_of_constraint {later : List Token}
    (classified : AlterKind.classify? operation.options operation.tokens =
      some (.addConstraint, operation.tokens))
    (found : tokensAfter? (·.isKeyword "FOREIGN KEY") operation.tokens = some later)
    (texts : parameterTexts later = columns) (some_column : columns ≠ []) (table : String) :
    ∃ effect, operation.effect? table = some effect ∧
      AddsKey .foreign columns operation.field effect := by
  refine ⟨_, ?_, .foreign rfl (referencesOf? operation.tokens) table⟩
  simp [effect?, classified, constraintEffect?, found, texts, some_column]

end AlterOperation

/-- After `INDEX`, `KEY` and `CONSTRAINT` a name is read, unless it is itself the keyword of a
    key: such a word stays among the tokens. -/
theorem Cursor.exists_addClause_named {head : Lexeme} {word : String}
    (spelled : head.token = .keyword word)
    (listed : word = "INDEX" ∨ word = "KEY" ∨ word = "CONSTRAINT") (name : Option KeyName)
    (rest : List Lexeme) (stop : Nat)
    (starts : (atPunct ⟨rest, stop⟩ '(' || atAnyKeyword ⟨rest, stop⟩ keyClauseWords) = true)
    (unqualified : atPunct ⟨rest, stop⟩ '.' = false) :
    ∃ (field : Option String) (kept : List Lexeme),
      addClause ⟨head :: (KeyName.lexemes name ++ rest), stop⟩ =
        .ok ⟨["ADD", word], field, keyRemainder (kept ++ rest)⟩ ∧
      (∀ l ∈ kept, l.Flat ∧ l.introducesName = false) ∧
      (name = none → field = none ∧ kept = []) := by
  have uncolumned : word ≠ "COLUMN" := by
    rcases listed with rfl | rfl | rfl
    · decide
    · decide
    · decide
  have here : keyword? ⟨head :: (KeyName.lexemes name ++ rest), stop⟩ = some word := by
    simp [keyword?, spelled, Token.keyword?]
  have next : next ⟨head :: (KeyName.lexemes name ++ rest), stop⟩ =
      ⟨KeyName.lexemes name ++ rest, stop⟩ := rfl
  simp only [addClause, here, listed, if_true, next]
  cases name with
  | none =>
      refine ⟨none, [], ?_, by simp, fun _ => ⟨rfl, rfl⟩⟩
      have starts : (atPunct ⟨KeyName.lexemes none ++ rest, stop⟩ '(' ||
          atAnyKeyword ⟨KeyName.lexemes none ++ rest, stop⟩ keyClauseWords) = true := starts
      rw [if_pos starts]
      rfl
  | some name =>
      have closed : atPunct ⟨KeyName.lexemes (some name) ++ rest, stop⟩ '(' = false :=
        name.atPunct_cons rest stop
      cases keyed : atAnyKeyword ⟨KeyName.lexemes (some name) ++ rest, stop⟩ keyClauseWords with
      | true =>
          refine ⟨none, [name.lexeme], by simp [closed]; rfl, ?_, by simp⟩
          obtain ⟨key, member, found⟩ := List.any_eq_true.mp keyed
          have token : name.lexeme.token = .keyword key := Token.isKeyword_iff.mp found
          have plain : ∀ key ∈ keyClauseWords, nameIntroducers.any (key == ·) = false := by decide
          rw [List.forall_mem_singleton, introducesName_keyword token]
          exact ⟨name.flat, plain key member⟩
      | false =>
          have read : Cursor.name ⟨KeyName.lexemes (some name) ++ rest, stop⟩ =
              .ok (name.name, ⟨rest, stop⟩) := name_of_name? name.named unqualified
          refine ⟨some name.name, [], ?_, by simp, by simp⟩
          simp only [closed, Bool.or_self, Bool.false_eq_true, if_false, read]
          rfl

namespace OrderedColumns

theorem atPunct_lexemes (s : OrderedColumns) (mark : Char) (rest : List Lexeme) (stop : Nat) :
    Cursor.atPunct ⟨s.lexemes ++ rest, stop⟩ mark = ('(' == mark) := by
  simp [Cursor.atPunct, lexemes, s.opens, Token.isPunct]

end OrderedColumns

namespace AddedKey

/-- What is read of a clause that adds a key, and what it adds: a key on the words of its parts
    besides their lengths. -/
def AddsWords (s : AddedKey) (stop : Nat) : Prop :=
  ∃ operation name, Cursor.addClause ⟨s.lexemes, stop⟩ = .ok operation ∧
    (s.name = none → name = none) ∧
    ∀ table, ∃ effect, operation.effect? table = some effect ∧
      AddsKey s.kind s.columns.words name effect

theorem addsWords_plainIndex {head : Lexeme} {word : String} (spelled : head.token = .keyword word)
    (listed : word ∈ indexWords) (plain : word = "INDEX" ∨ word = "KEY") (name : Option KeyName)
    (columns : OrderedColumns) (rest : List Lexeme) (stop : Nat) :
    AddsWords (.index head word spelled listed name columns rest) stop := by
  obtain ⟨field, kept, read, flat, unnamed⟩ := Cursor.exists_addClause_named spelled
    (plain.imp_right .inl) name (columns.lexemes ++ rest) stop
    (by rw [columns.atPunct_lexemes]; rfl) (columns.atPunct_lexemes '.' rest stop)
  have flat : ∀ l ∈ kept, l.Flat := fun l member => (flat l member).1
  obtain ⟨tokens, remainder, words⟩ := columns.exists_keyRemainder flat rest
  rw [remainder] at read
  refine ⟨_, AlterOperation.target? ⟨["ADD", word], field, []⟩
    (clauseTokens 0 false kept ++ .punct '(' :: tokens), read, ?_, fun table => ?_⟩
  · intro none
    obtain ⟨rfl, rfl⟩ := unnamed none
    rfl
  · have classified : AlterKind.classify? ["ADD", word]
        (clauseTokens 0 false kept ++ .punct '(' :: tokens) =
          some (.addIndex, clauseTokens 0 false kept ++ .punct '(' :: tokens) := by
      rcases plain with rfl | rfl
      · exact AlterKind.classify?_headless rfl rfl rfl _
      · exact AlterKind.classify?_headless rfl rfl rfl _
    have kind : KeyKind.index = indexKind word := by
      rcases plain with rfl | rfl
      · rfl
      · rfl
    have texts := parameterTexts_of_closed (closed_of_clauseTokens flat false) words
    have added := AlterOperation.exists_addsKey_of_addedKey?
      ⟨["ADD", word], field, _⟩ classified rfl texts columns.words_ne_nil table
    rwa [kind] at added

theorem addsWords_headedIndex {head : Lexeme} {word : String}
    (spelled : head.token = .keyword word) (listed : word ∈ indexWords)
    (other : ¬(word = "INDEX" ∨ word = "KEY")) (name : Option KeyName) (columns : OrderedColumns)
    (rest : List Lexeme) (stop : Nat) :
    AddsWords (.index head word spelled listed name columns rest) stop := by
  have heads : ∀ word ∈ indexWords, ¬(word = "INDEX" ∨ word = "KEY") →
      (addHeads.find? (·.keywords.any (Token.keyword word).isKeyword)).map
        (fun head => (head.kind.addedKey?, head.consumed)) =
          some (some (indexKind word), true) := by
    decide
  have unconstrained : ∀ word ∈ indexWords, word ≠ "CONSTRAINT" := by decide
  have plain : ∀ word ∈ indexWords, nameIntroducers.any (word == ·) = false := by decide
  obtain ⟨rule, found, shape⟩ := Option.map_eq_some_iff.mp (heads word listed other)
  simp only [Prod.mk.injEq] at shape
  have flat := flat_of_keyword spelled
  have names := KeyName.flat_lexemes name
  obtain ⟨tokens, remainder, words⟩ := columns.exists_keyRemainder
    (List.forall_mem_cons.mpr ⟨flat, names⟩) rest
  have introduces : head.introducesName = false :=
    (introducesName_keyword spelled).trans (plain word listed)
  have read := Cursor.addClause_key spelled (mem_keyClauseWords listed)
    (fun h => (or_assoc.mpr h).elim other (unconstrained word listed))
    (KeyName.lexemes name ++ (columns.lexemes ++ rest)) stop
  rw [← List.cons_append, remainder, clauseTokens_flat flat, introduces, spelled] at read
  have classified := KeySyntax.classify?_add found
    (clauseTokens 0 false (KeyName.lexemes name) ++ .punct '(' :: tokens)
  rw [if_pos shape.2] at classified
  have texts := parameterTexts_of_closed (closed_of_clauseTokens names false) words
  refine ⟨_, AlterOperation.target? ⟨["ADD"], none, []⟩
    (clauseTokens 0 false (KeyName.lexemes name) ++ .punct '(' :: tokens), read, ?_,
    fun table => ?_⟩
  · rintro rfl
    rfl
  · exact AlterOperation.exists_addsKey_of_addedKey? ⟨["ADD"], none, _⟩ classified
      shape.1 texts columns.words_ne_nil table

theorem addsWords_foreign {head : Lexeme} (spelled : head.token = .keyword "FOREIGN KEY")
    (columns : OrderedColumns) (rest : List Lexeme) (stop : Nat) :
    AddsWords (.foreign head spelled columns rest) stop := by
  have flat := flat_of_keyword spelled
  obtain ⟨tokens, remainder, words⟩ := columns.exists_keyRemainder
    (List.forall_mem_singleton.mpr flat) rest
  have read := Cursor.addClause_key spelled (by decide) (by decide) (columns.lexemes ++ rest) stop
  rw [← List.singleton_append, remainder, clauseTokens_flat flat, spelled] at read
  have texts := parameterTexts_of_closed (List.forall_mem_nil _) words
  exact ⟨_, none, read, fun _ => rfl, fun table =>
    AlterOperation.exists_addsKey_of_constraint ⟨["ADD"], none, _⟩ rfl rfl texts
      columns.words_ne_nil table⟩

theorem addsWords_constraint {opening head : Lexeme} (opens : opening.token = .keyword "CONSTRAINT")
    (symbol : Option KeyName) (spelled : head.token = .keyword "FOREIGN KEY")
    (columns : OrderedColumns) (rest : List Lexeme) (stop : Nat) :
    AddsWords (.constraint opening opens symbol head spelled columns rest) stop := by
  have keyed := Cursor.atAnyKeyword_cons spelled (by decide : _ ∈ keyClauseWords)
    (columns.lexemes ++ rest) stop
  have unqualified : Cursor.atPunct ⟨head :: (columns.lexemes ++ rest), stop⟩ '.' = false := by
    simp [Cursor.atPunct, spelled, Token.isPunct]
  obtain ⟨field, kept, read, flat, unnamed⟩ := Cursor.exists_addClause_named opens
    (.inr (.inr rfl)) symbol (head :: (columns.lexemes ++ rest)) stop
    (by rw [keyed, Bool.or_true]) unqualified
  have front : ∀ l ∈ kept ++ [head], l.Flat :=
    List.forall_mem_append.mpr ⟨fun l member => (flat l member).1,
      List.forall_mem_singleton.mpr (flat_of_keyword spelled)⟩
  obtain ⟨tokens, remainder, words⟩ := columns.exists_keyRemainder front rest
  rw [List.append_assoc, List.singleton_append] at remainder
  rw [remainder] at read
  -- No word that stays in front makes the keyword a name.
  have follows : nameFollows false kept = false := by
    cases last : kept.getLast? with
    | none => simp [nameFollows, last]
    | some l => simpa [nameFollows, last] using (flat l (List.mem_of_getLast? last)).2
  have level : kept.foldl depthAfter 0 = 0 :=
    foldl_depthAfter_balanced (balanced_of_flat fun l member => (flat l member).1) 0
  have undemoted :
      (clauseTokens 0 false (kept ++ [head])).any (·.isKeyword "FOREIGN KEY") = true := by
    rw [clauseTokens_append, follows, level]
    simp [clauseTokens, spelled, Token.isKeyword]
  obtain ⟨later, found, members⟩ := exists_tokensAfter?_append undemoted (.punct '(' :: tokens)
  have closed : ∀ token ∈ later, token.isPunct '(' = false := fun token member =>
    closed_of_clauseTokens front false token (members token member)
  exact ⟨_, field, read, fun none => (unnamed none).1, fun table =>
    AlterOperation.exists_addsKey_of_constraint ⟨["ADD", "CONSTRAINT"], field, _⟩
      (AlterKind.classify?_headless rfl rfl rfl _) found (parameterTexts_of_closed closed words)
      columns.words_ne_nil table⟩

theorem addsWords (s : AddedKey) (stop : Nat) : s.AddsWords stop := by
  cases s with
  | index head word spelled listed name columns rest =>
      by_cases plain : word = "INDEX" ∨ word = "KEY"
      · exact addsWords_plainIndex spelled listed plain name columns rest stop
      · exact addsWords_headedIndex spelled listed plain name columns rest stop
  | foreign head spelled columns rest => exact addsWords_foreign spelled columns rest stop
  | constraint opening opens symbol head spelled columns rest =>
      exact addsWords_constraint opens symbol spelled columns rest stop

end AddedKey

/-- The columns of the key that a command adds. -/
def TableCommand.keyColumns? : TableCommand → Option (List String)
  | key _ columns _ | foreign columns _ _ => some columns
  | _ => none

namespace AddedKey

/-- A clause that adds a key is read, and the key that it adds is on the columns that are
    written, in order, exactly if none of them has a direction. The same columns take back a
    key without a name. -/
theorem columns_kept_iff (s : AddedKey) (add : Lexeme) (hadd : add.token = .keyword "ADD") :
    ∃ operation, (Cursor.ofSlice (add :: s.lexemes)).alterClause = .ok operation ∧
      ∀ table, ∃ effect, operation.effect? table = some effect ∧
        (effect.up.filterMap TableCommand.keyColumns? = [s.columns.names] ↔
          s.columns.Undirected) ∧
        (s.name = none → ∃ method, s.kind.dropMethod? = some method ∧
          (effect.down = .drop method (.columns s.columns.names) ↔ s.columns.Undirected)) := by
  obtain ⟨operation, name, read, unnamed, effects⟩ :=
    s.addsWords (Cursor.ofSlice (add :: s.lexemes)).stop
  have clause : (Cursor.ofSlice (add :: s.lexemes)).alterClause = .ok operation := by
    simpa [Cursor.alterClause, Cursor.ofSlice, hadd, Token.keyword?, Cursor.next] using read
  refine ⟨operation, clause, fun table => ?_⟩
  obtain ⟨effect, found, adds⟩ := effects table
  refine ⟨effect, found, ?_, fun anonymous => ?_⟩
  · rw [← s.columns.words_eq_names_iff]
    cases adds with
    | key | foreign => simp [TableCommand.keyColumns?]
  · rw [unnamed anonymous] at adds
    cases adds with
    | @key method drops =>
        refine ⟨method, drops, ?_⟩
        simp [AlterOperation.dropTarget, s.columns.words_eq_names_iff]
    | foreign isForeign =>
        refine ⟨.dropForeign, by rw [isForeign]; rfl, ?_⟩
        simp [AlterOperation.dropTarget, s.columns.words_eq_names_iff]

/-- The clause `UNIQUE KEY (email(191), team)`. -/
def emailAndTeam : AddedKey :=
  .index ⟨.keyword "UNIQUE KEY", "UNIQUE KEY", 4, 14⟩ "UNIQUE KEY" rfl (by decide) none
    { opening := ⟨.punct '(', "(", 15, 16⟩
      closing := ⟨.punct ')', ")", 32, 33⟩
      parts :=
        [⟨⟨.identifier "email", "email", 16, 21⟩, "email", rfl,
            some ⟨⟨.punct '(', "(", 21, 22⟩, ⟨.literal (.number "191"), "191", 22, 25⟩,
              ⟨.punct ')', ")", 25, 26⟩, "191", rfl, rfl, rfl⟩, none⟩,
          ⟨⟨.identifier "team", "team", 28, 32⟩, "team", rfl, none, none⟩]
      inside := _
      opens := rfl
      closes := rfl
      nonempty := List.cons_ne_nil _ _
      separated := @Separated.cons _ ⟨.punct ',', ",", 26, 27⟩ _ _ rfl (.one _) }
    []

theorem columns_kept_emailAndTeam :
    tokenize "ADD UNIQUE KEY (email(191), team)" =
        .ok (⟨.keyword "ADD", "ADD", 0, 3⟩ :: emailAndTeam.lexemes) ∧
      ∃ operation,
        (Cursor.ofSlice (⟨.keyword "ADD", "ADD", 0, 3⟩ :: emailAndTeam.lexemes)).alterClause =
          .ok operation ∧
        ∀ table, ∃ effect, operation.effect? table = some effect ∧
          effect.up.filterMap TableCommand.keyColumns? = [["email", "team"]] ∧
          effect.down = .drop .dropUnique (.columns ["email", "team"]) := by
  have plain : emailAndTeam.columns.Undirected := by
    simp [OrderedColumns.Undirected, emailAndTeam, columns]
  obtain ⟨operation, read, kept⟩ :=
    emailAndTeam.columns_kept_iff ⟨.keyword "ADD", "ADD", 0, 3⟩ rfl
  refine ⟨by decide +kernel, operation, read, fun table => ?_⟩
  obtain ⟨effect, found, up, down⟩ := kept table
  obtain ⟨method, drops, back⟩ := down rfl
  cases drops
  exact ⟨effect, found, up.mpr plain, back.mpr plain⟩

/-- The direction of a column becomes a column of the index, up and down. -/
theorem columns_differ_descending :
    Script.parse "ALTER TABLE t ADD INDEX (a DESC, b)" =
      .ok [.alter ⟨"t", [⟨["ADD", "INDEX"], none, [.punct '(', .identifier "a",
        .identifier "DESC", .punct ',', .identifier "b", .punct ')']⟩]⟩] ∧
    Migration.each [.alter ⟨"t", [⟨["ADD", "INDEX"], none, [.punct '(', .identifier "a",
        .identifier "DESC", .punct ',', .identifier "b", .punct ')']⟩]⟩] 0 =
      [⟨"Schema::table('t', function (Blueprint $table) \x7b\n" ++
          "\t$table->index(['a', 'DESC', 'b'], null);\n\x7d);",
        "Schema::table('t', function (Blueprint $table) \x7b\n" ++
          "\t$table->dropIndex(['a', 'DESC', 'b']);\n\x7d);"⟩] := by
  refine ⟨?_, ?_⟩
  · decide +kernel
  · decide +kernel

end AddedKey

end TableShift
