import TableShift.Proofs.ColumnSyntax
import TableShift.Schema.Step

/-! # Two readings of a column definition

As a field of a new table a definition keeps its options with their values; as the tokens
of a clause it is searched for a type and for modifiers. Both readings are followed option
by option. A clause takes the word after `AFTER`, `TO`, `AS` or `REFERENCES` for a name,
even where that keyword is itself a name: the option that follows is then not seen.
-/

namespace TableShift

open Lexeme

/-! ## In a new table -/

/-- The value that a lexeme is as an option's value, unless it is called. -/
def Lexeme.plainValue (l : Lexeme) : Value :=
  match l.token with
  | .literal value => value
  | .keyword "NULL" => .null
  | _ => .expr l.raw

/-- Whether the next lexeme opens a group. -/
def Lexeme.opensGroup (ls : List Lexeme) : Bool :=
  ls.head?.any (·.token.isPunct '(')

theorem Cursor.optionValue_plain {l : Lexeme} (visible : ∀ mark, l.token ≠ .punct mark)
    {rest : List Lexeme} (closed : opensGroup rest = false) (stop : Nat) :
    optionValue ⟨l :: rest, stop⟩ = .ok (l.plainValue, ⟨rest, stop⟩) := by
  have uncalled : atPunct ⟨rest, stop⟩ '(' = false := closed
  cases token : l.token with
  | literal value => simp [optionValue, plainValue, token, next]
  | punct mark => exact absurd token (visible mark)
  | keyword word =>
      by_cases null : word = "NULL"
      · simp [optionValue, plainValue, token, null, Token.isKeyword, next]
      · simp [optionValue, plainValue, token, null, Token.isKeyword, uncalled, next]
  | identifier name => simp [optionValue, plainValue, token, Token.isKeyword, uncalled, next]

/-- Whether an option belongs to the type of a column. -/
def ColumnOption.ofType (option : ColumnOption) : Bool :=
  match OptionRole.ofKeyword option.name with
  | .typeFlag | .typeValue => true
  | _ => false

namespace ColumnTail

/-- Puts an option in front, at the type or at the column. -/
def cons (option : ColumnOption) (tail : ColumnTail) : ColumnTail :=
  if option.ofType then tail.consType option else tail.consOption option

/-- The options of a column, sorted. -/
def ofOptions (options : List ColumnOption) : ColumnTail where
  typeOptions := options.filter ColumnOption.ofType
  options := options.filter (!·.ofType)

theorem cons_of_type (option : ColumnOption)
    (role : OptionRole.ofKeyword option.name = .typeFlag ∨
      OptionRole.ofKeyword option.name = .typeValue) :
    cons option = consType option := by
  have sort : option.ofType = true := by
    rcases role with role | role <;> simp [ColumnOption.ofType, role]
  funext tail
  simp [cons, sort]

theorem cons_of_column (option : ColumnOption)
    (role : OptionRole.ofKeyword option.name = .flag ∨ OptionRole.ofKeyword option.name = .value) :
    cons option = consOption option := by
  have sort : option.ofType = false := by
    rcases role with role | role <;> simp [ColumnOption.ofType, role]
  funext tail
  simp [cons, sort]

theorem ofOptions_cons (option : ColumnOption) (options : List ColumnOption) :
    ofOptions (option :: options) = (ofOptions options).cons option := by
  cases sort : option.ofType <;> simp [ofOptions, cons, sort, consType, consOption]

end ColumnTail

namespace OptionSyntax

/-- The option as a new table has it. -/
def created? : OptionSyntax → Option ColumnOption
  | flag _ word .. => some (.flag word)
  | valued _ content word .. => some (.keyValue word content.plainValue)
  | after _ name .. => some (.keyValue "AFTER" name.plainValue)
  | comment _ _ value .. => some (.keyValue "COMMENT" value)
  | check .. => none

theorem opensGroup_append (option : OptionSyntax) (rest : List Lexeme) :
    opensGroup (option.lexemes ++ rest) = false := by
  cases option <;> simp [lexemes, opensGroup, Token.isPunct, *]

theorem opensGroup_flatMap (options : List OptionSyntax) :
    opensGroup (options.flatMap lexemes) = false := by
  cases options with
  | nil => rfl
  | cons option options => exact opensGroup_append option _

/-- What an option in front of others adds to them. -/
def addTo (option : OptionSyntax) (tail : ColumnTail) : ColumnTail :=
  match option.created? with
  | some option => tail.cons option
  | none => tail

theorem columnTail_bare {head : Lexeme} {word : String} (spelled : head.token = .keyword word)
    (role : OptionRole.ofKeyword word = .typeFlag ∨ OptionRole.ofKeyword word = .flag)
    (column : String) (rest : List Lexeme) (stop : Nat) :
    Cursor.columnTail column ⟨head :: rest, stop⟩ =
      (Cursor.columnTail column ⟨rest, stop⟩).map (ColumnTail.cons (.flag word)) := by
  have read := Cursor.columnTail_cons column (c := ⟨head :: rest, stop⟩) rfl
  rcases role with role | role
  · rw [ColumnTail.cons_of_type (.flag word) (.inl role)]
    simp only [spelled, Token.keyword?, role] at read
    exact read
  · rw [ColumnTail.cons_of_column (.flag word) (.inl role)]
    simp only [spelled, Token.keyword?, role] at read
    exact read

theorem columnTail_carrying {head content : Lexeme} {word : String}
    (spelled : head.token = .keyword word)
    (role : OptionRole.ofKeyword word = .typeValue ∨ OptionRole.ofKeyword word = .value)
    (visible : ∀ mark, content.token ≠ .punct mark) {rest : List Lexeme}
    (closed : opensGroup rest = false) (column : String) (stop : Nat) :
    Cursor.columnTail column ⟨head :: content :: rest, stop⟩ =
      (Cursor.columnTail column ⟨rest, stop⟩).map
        (ColumnTail.cons (.keyValue word content.plainValue)) := by
  have read := Cursor.columnTail_cons column (c := ⟨head :: content :: rest, stop⟩) rfl
  have value := Cursor.optionValue_plain visible closed stop
  have next : Cursor.next ⟨head :: content :: rest, stop⟩ = ⟨content :: rest, stop⟩ := rfl
  rcases role with role | role
  · rw [ColumnTail.cons_of_type (.keyValue word content.plainValue) (.inr role)]
    simp only [spelled, Token.keyword?, role, next, value] at read
    exact read
  · rw [ColumnTail.cons_of_column (.keyValue word content.plainValue) (.inr role)]
    simp only [spelled, Token.keyword?, role, next, value] at read
    exact read

theorem columnTail_check {head opening closing : Lexeme} {inside : List Lexeme}
    (spelled : head.token = .keyword "CHECK") (opens : opening.token = .punct '(')
    (balanced : Balanced inside) (closes : closing.token = .punct ')') (column : String)
    (rest : List Lexeme) (stop : Nat) :
    Cursor.columnTail column ⟨head :: opening :: (inside ++ closing :: rest), stop⟩ =
      Cursor.columnTail column ⟨rest, stop⟩ := by
  have read := Cursor.columnTail_cons column
    (c := ⟨head :: opening :: (inside ++ closing :: rest), stop⟩) rfl
  have role : OptionRole.ofKeyword "CHECK" = .check := rfl
  have next : Cursor.next ⟨head :: opening :: (inside ++ closing :: rest), stop⟩ =
      ⟨opening :: (inside ++ closing :: rest), stop⟩ := rfl
  have opened : Cursor.atPunct ⟨opening :: (inside ++ closing :: rest), stop⟩ '(' = true := by
    simp [Cursor.atPunct, opens, Token.isPunct]
  simp only [spelled, Token.keyword?, role, next, opened, if_true,
    Cursor.group_balanced opens balanced closes] at read
  exact read

theorem columnTail_append (option : OptionSyntax) (column : String) {rest : List Lexeme}
    (closed : opensGroup rest = false) (stop : Nat) :
    Cursor.columnTail column ⟨option.lexemes ++ rest, stop⟩ =
      (Cursor.columnTail column ⟨rest, stop⟩).map option.addTo := by
  cases option with
  | flag head word spelled listed =>
      have roles : ∀ word ∈ flagWords, OptionRole.ofKeyword word = .typeFlag ∨
          OptionRole.ofKeyword word = .flag := by decide
      exact columnTail_bare spelled (roles word listed) column rest stop
  | valued head content word spelled listed plain =>
      have roles : ∀ word ∈ valueWords, OptionRole.ofKeyword word = .typeValue ∨
          OptionRole.ofKeyword word = .value := by decide
      refine columnTail_carrying spelled (roles word listed) ?_ closed column stop
      intro mark punct
      rw [punct] at plain
      cases plain
  | after head name next spelled named proper =>
      refine columnTail_carrying spelled (.inr rfl) ?_ closed column stop
      intro mark punct
      simp [name?, punct] at named
  | comment head text value spelled literal =>
      have plain : text.plainValue = value := by simp [plainValue, literal]
      have visible : ∀ mark, text.token ≠ .punct mark := by simp [literal]
      have read := columnTail_carrying spelled (.inr rfl) visible closed column stop
      rwa [plain] at read
  | check head opening closing inside spelled opens balanced closes =>
      have read := columnTail_check spelled opens balanced closes column rest stop
      simp only [lexemes, List.cons_append, List.append_assoc, List.nil_append, read]
      cases Cursor.columnTail column ⟨rest, stop⟩ <;> rfl

theorem columnTail_flatMap (options : List OptionSyntax) (column : String) (stop : Nat) :
    Cursor.columnTail column ⟨options.flatMap lexemes, stop⟩ =
      .ok (.ofOptions (options.filterMap created?)) := by
  induction options with
  | nil => exact Cursor.columnTail_nil column rfl
  | cons option options ih =>
      rw [List.flatMap_cons, columnTail_append option column (opensGroup_flatMap options) stop, ih]
      cases created : option.created? with
      | none => simp [addTo, created, Except.map]
      | some read => simp [addTo, created, Except.map, ColumnTail.ofOptions_cons]

end OptionSyntax

namespace ColumnSyntax

/-- The parameters of the type as a new table has them. -/
def createdParameters (s : ColumnSyntax) : List String :=
  (s.parameters.map fun p => p.parameters.map (·.token.text)).getD []

/-- The field that the definition is in a new table. -/
def field (s : ColumnSyntax) : Field where
  name := some s.column
  type := some ⟨s.typeName, s.createdParameters,
    (ColumnTail.ofOptions (s.options.filterMap OptionSyntax.created?)).typeOptions⟩
  options := (ColumnTail.ofOptions (s.options.filterMap OptionSyntax.created?)).options

theorem name_lexemes (s : ColumnSyntax) (stop : Nat) :
    Cursor.name ⟨s.lexemes, stop⟩ = .ok (s.column, ⟨s.type :: s.tail, stop⟩) := by
  simp [Cursor.name, lexemes, Cursor.nameFrom, s.named, s.typed, Token.isPunct]

theorem typeParameters_tail (s : ColumnSyntax) (stop : Nat) :
    Cursor.typeParameters ⟨s.tail, stop⟩ =
      .ok (s.createdParameters, ⟨s.options.flatMap OptionSyntax.lexemes, stop⟩) := by
  cases given : s.parameters with
  | none =>
      have closed := OptionSyntax.opensGroup_flatMap s.options
      simp only [opensGroup] at closed
      simp [Cursor.typeParameters, Cursor.atPunct, tail, createdParameters, given, closed]
  | some p =>
      have group := Cursor.group_balanced p.opens p.balanced p.closes
        (s.options.flatMap OptionSyntax.lexemes) stop
      simp [Cursor.typeParameters, Cursor.atPunct, tail, createdParameters, given,
        ParameterSyntax.lexemes, p.opens, Token.isPunct, group, p.commaParts_inside,
        Function.comp_def, parameterText, joinWith]

theorem definition_lexemes (s : ColumnSyntax) (stop : Nat) :
    Cursor.definition ⟨s.lexemes, stop⟩ = .ok (some s.field) := by
  have unkeyed : Cursor.atAnyKeyword ⟨s.lexemes, stop⟩ keyClauseWords = false := by
    simp only [Cursor.atAnyKeyword, List.any_eq_false]
    intro word listed found
    exact s.unreserved word listed (Token.isKeyword_iff.mp found)
  have type : Cursor.typeName? ⟨s.type :: s.tail, stop⟩ = some s.typeName := by
    simp [Cursor.typeName?, s.typed]
  have next : Cursor.next ⟨s.type :: s.tail, stop⟩ = ⟨s.tail, stop⟩ := rfl
  have column : Cursor.column ⟨s.lexemes, stop⟩ = .ok s.field := by
    simp only [Cursor.column, name_lexemes, bind, Except.bind, type, next, typeParameters_tail,
      OptionSyntax.columnTail_flatMap]
    rfl
  simp only [Cursor.definition, unkeyed, column]
  rfl

end ColumnSyntax

/-! ## In a clause -/

/-- Whether an option leads to a modifier, by its presence or by its absence. -/
def ColumnOption.modifies (option : ColumnOption) : Bool :=
  (Modifier.find? option.name).isSome || absentModifiers.any (·.option == option.name)

namespace ColumnClause

/-- Adds options at the end. -/
def withOptions (clause : ColumnClause) (options : List ColumnOption) : ColumnClause :=
  { clause with options := clause.options ++ options }

theorem withOptions_nil (clause : ColumnClause) : clause.withOptions [] = clause := by
  simp [withOptions]

theorem withOptions_append (clause : ColumnClause) (xs ys : List ColumnOption) :
    (clause.withOptions xs).withOptions ys = clause.withOptions (xs ++ ys) := by
  simp [withOptions]

theorem scanFrom_cons (clause : ColumnClause) {token : Token} (h : token.keyword? = none)
    (rest : List Token) : scanFrom clause (token :: rest) = scanFrom clause rest := by
  rw [scanFrom, h]

theorem scanFrom_skip (clause : ColumnClause) {tokens : List Token}
    (h : ∀ token ∈ tokens, token.keyword? = none) (rest : List Token) :
    scanFrom clause (tokens ++ rest) = scanFrom clause rest := by
  induction tokens with
  | nil => rfl
  | cons token tokens ih =>
      rw [List.forall_mem_cons] at h
      rw [List.cons_append, scanFrom_cons clause h.1]
      exact ih h.2

variable (clause : ColumnClause) {word : String} (untyped : ColumnMethod.isKnown word = false)
include untyped

theorem scanFrom_flag (bare : ∀ m, Modifier.find? word = some m → m.takesValue = false)
    (rest : List Token) :
    scanFrom clause (.keyword word :: rest) =
      scanFrom (clause.withOptions ([.flag word].filter ColumnOption.modifies)) rest := by
  rw [scanFrom]
  simp only [Token.keyword?, untyped, Bool.and_false, Bool.false_eq_true, if_false]
  cases found : Modifier.find? word with
  | some m =>
      have modifies : (ColumnOption.flag word).modifies = true := by
        simp [ColumnOption.modifies, ColumnOption.name, found]
      simp [bare m found, modifies, withOption, withOptions]
  | none =>
      have modifies : (ColumnOption.flag word).modifies =
          absentModifiers.any (·.option == word) := by
        simp [ColumnOption.modifies, ColumnOption.name, found]
      cases absent : absentModifiers.any (·.option == word) with
      | true => simp [modifies, absent, withOption, withOptions]
      | false => simp [modifies, absent, withOptions]

theorem scanFrom_value (takes : (Modifier.find? word).any Modifier.takesValue = true)
    (value : Token) (rest : List Token) :
    scanFrom clause (.keyword word :: value :: rest) =
      scanFrom (clause.withOptions ([.keyValue word value.toValue].filter ColumnOption.modifies))
        rest := by
  obtain ⟨modifier, found, takesValue⟩ := (Option.any_eq_true _ _).mp takes
  have modifies : (ColumnOption.keyValue word value.toValue).modifies = true := by
    simp [ColumnOption.modifies, ColumnOption.name, found]
  rw [scanFrom]
  simp [Token.keyword?, untyped, found, takesValue, modifies, withOption, withOptions]

end ColumnClause

namespace OptionSyntax

theorem scanFrom_hidden (clause : ColumnClause) (l : Lexeme) (rest : List Token) :
    clause.scanFrom (l.asIdentifier :: rest) = clause.scanFrom rest :=
  clause.scanFrom_cons (keyword?_asIdentifier l) rest

theorem scanFrom_group (clause : ColumnClause) (inside : List Lexeme) (rest : List Token) :
    clause.scanFrom (.punct '(' :: (inside.map asIdentifier ++ .punct ')' :: rest)) =
      clause.scanFrom rest := by
  rw [clause.scanFrom_cons rfl, clause.scanFrom_skip _ _, clause.scanFrom_cons rfl]
  intro token member
  obtain ⟨l, _, rfl⟩ := List.mem_map.mp member
  exact keyword?_asIdentifier l

theorem scanFrom_plainValue (clause : ColumnClause) {token : Token} (plain : PlainValue token)
    (rest : List Token) : clause.scanFrom (token :: rest) = clause.scanFrom rest := by
  cases plain with
  | literal value => exact clause.scanFrom_cons rfl rest
  | identifier name => exact clause.scanFrom_cons rfl rest
  | null =>
      rw [clause.scanFrom_flag (ColumnMethod.isKnown_eq_false (by simp [flagWords])) (by decide)]
      exact congrArg (ColumnClause.scanFrom · rest) clause.withOptions_nil

theorem introducesName_plainValue {l : Lexeme} (plain : PlainValue l.token) :
    l.introducesName = false := by
  cases token : l.token with
  | literal | identifier | punct => simp [Lexeme.introducesName, token, Token.isKeyword]
  | keyword word =>
      rw [token] at plain
      cases plain
      rw [introducesName_keyword token]
      decide

theorem flat_of_plainValue {l : Lexeme} (plain : PlainValue l.token) : l.Flat := by
  cases token : l.token with
  | literal | identifier | keyword => simp [Flat, token, Token.isPunct]
  | punct mark =>
      rw [token] at plain
      cases plain

/-- The first word of an option. -/
def head : OptionSyntax → Lexeme
  | flag head .. | valued head .. | after head .. | comment head .. | check head .. => head

/-- The tokens behind the first word, as a clause has them. -/
def behind : OptionSyntax → List Token
  | flag .. => []
  | valued _ content .. => [content.token]
  | after _ _ column .. => [.identifier column]
  | comment _ text .. => [text.token]
  | check _ _ _ inside .. => .punct '(' :: (inside.map asIdentifier ++ [.punct ')'])

/-- The tokens of an option: only its first word can be taken for a name. -/
theorem clauseTokens_append (option : OptionSyntax) (hidden : Bool) (rest : List Lexeme) :
    clauseTokens 0 hidden (option.lexemes ++ rest) =
      (if hidden then option.head.asIdentifier else option.head.token) ::
        (option.behind ++ clauseTokens 0 option.introducesName rest) := by
  cases option with
  | flag head word spelled listed =>
      have plain : ∀ word ∈ flagWords, nameIntroducers.any (word == ·) = false := by decide
      rw [lexemes, List.singleton_append, clauseTokens_flat (flat_of_keyword spelled),
        introducesName_keyword spelled, plain word listed]
      rfl
  | valued head content word spelled listed value =>
      have plain : ∀ word ∈ valueWords, nameIntroducers.any (word == ·) = false := by decide
      rw [lexemes, List.cons_append, List.singleton_append,
        clauseTokens_flat (flat_of_keyword spelled), introducesName_keyword spelled,
        plain word listed, clauseTokens_flat (flat_of_plainValue value),
        introducesName_plainValue value]
      rfl
  | after head name column spelled named proper =>
      have identifier : name.asIdentifier = .identifier column := by simp [asIdentifier, named]
      have introduces : nameIntroducers.any ("AFTER" == ·) = true := by decide
      rw [lexemes, List.cons_append, List.singleton_append,
        clauseTokens_flat (flat_of_keyword spelled), introducesName_keyword spelled, introduces,
        clauseTokens_flat (flat_of_name? named), if_pos rfl, identifier]
      rfl
  | comment head text value spelled literal =>
      have plain : nameIntroducers.any ("COMMENT" == ·) = false := by decide
      have value : PlainValue text.token := literal ▸ .literal value
      rw [lexemes, List.cons_append, List.singleton_append,
        clauseTokens_flat (flat_of_keyword spelled), introducesName_keyword spelled, plain,
        clauseTokens_flat (flat_of_plainValue value), introducesName_plainValue value]
      rfl
  | check head opening closing inside spelled opens balanced closes =>
      have plain : nameIntroducers.any ("CHECK" == ·) = false := by decide
      rw [lexemes, List.cons_append, List.cons_append, List.append_assoc, List.singleton_append,
        clauseTokens_flat (flat_of_keyword spelled), introducesName_keyword spelled, plain,
        clauseTokens_group opens balanced closes]
      simp [OptionSyntax.head, behind, introducesName]

theorem scanFrom_behind (option : OptionSyntax) (clause : ColumnClause) (rest : List Token) :
    clause.scanFrom (option.behind ++ rest) = clause.scanFrom rest := by
  cases option with
  | flag => rfl
  | valued _ _ _ _ _ plain => exact scanFrom_plainValue clause plain rest
  | after => exact clause.scanFrom_cons rfl rest
  | comment _ _ value _ literal => exact scanFrom_plainValue clause (literal ▸ .literal value) rest
  | check _ _ _ inside =>
      rw [behind, List.cons_append, List.append_assoc]
      exact scanFrom_group clause inside rest

theorem scanFrom_head (option : OptionSyntax) (clause : ColumnClause) (rest : List Token) :
    clause.scanFrom (option.head.token :: (option.behind ++ rest)) =
      (clause.withOptions (option.option?.toList.filter ColumnOption.modifies)).scanFrom rest := by
  cases option with
  | flag head word spelled listed =>
      have bare : ∀ word ∈ flagWords, ∀ m ∈ Modifier.find? word, m.takesValue = false := by decide
      have untyped : ColumnMethod.isKnown word = false :=
        ColumnMethod.isKnown_eq_false (by simp [listed])
      rw [OptionSyntax.head, spelled, clause.scanFrom_flag untyped (bare word listed)]
      rfl
  | valued head content word spelled listed =>
      have takes : ∀ word ∈ valueWords, (Modifier.find? word).any Modifier.takesValue = true := by
        decide
      have untyped : ColumnMethod.isKnown word = false :=
        ColumnMethod.isKnown_eq_false (by simp [listed])
      rw [OptionSyntax.head, spelled]
      exact clause.scanFrom_value untyped (takes word listed) content.token rest
  | after head name column spelled =>
      have untyped : ColumnMethod.isKnown "AFTER" = false :=
        ColumnMethod.isKnown_eq_false (by simp [nameIntroducers])
      rw [OptionSyntax.head, spelled]
      exact clause.scanFrom_value untyped (by decide) (.identifier column) rest
  | comment head text value spelled literal =>
      have untyped : ColumnMethod.isKnown "COMMENT" = false :=
        ColumnMethod.isKnown_eq_false (by simp)
      rw [OptionSyntax.head, spelled, clause.scanFrom_flag untyped (by decide), scanFrom_behind]
      rfl
  | check head opening closing inside spelled =>
      have untyped : ColumnMethod.isKnown "CHECK" = false :=
        ColumnMethod.isKnown_eq_false (by simp)
      rw [OptionSyntax.head, spelled, clause.scanFrom_flag untyped (by decide), scanFrom_behind]
      rfl

/-- What a clause makes of an option: nothing if its first word is taken for a name. -/
theorem scanFrom_append (option : OptionSyntax) (clause : ColumnClause) (hidden : Bool)
    (rest : List Lexeme) :
    clause.scanFrom (clauseTokens 0 hidden (option.lexemes ++ rest)) =
      (clause.withOptions
        (if hidden then [] else option.option?.toList.filter ColumnOption.modifies)).scanFrom
        (clauseTokens 0 option.introducesName rest) := by
  rw [clauseTokens_append]
  cases hidden with
  | true =>
      rw [if_pos rfl, if_pos rfl, scanFrom_hidden, scanFrom_behind, ColumnClause.withOptions_nil]
  | false => exact option.scanFrom_head clause _

theorem scanFrom_flatMap (options : List OptionSyntax) (clause : ColumnClause) (hidden : Bool) :
    clause.scanFrom (clauseTokens 0 hidden (options.flatMap lexemes)) =
      clause.withOptions
        (((visible hidden options).filterMap option?).filter ColumnOption.modifies) := by
  induction options generalizing clause hidden with
  | nil => simp [clauseTokens, ColumnClause.scanFrom, visible, ColumnClause.withOptions_nil]
  | cons option options ih =>
      rw [List.flatMap_cons, scanFrom_append, ih, ColumnClause.withOptions_append]
      cases hidden with
      | true => simp [visible]
      | false =>
          cases given : option.option? with
          | none => simp [visible, given]
          | some read => cases counts : read.modifies <;> simp [visible, given, counts]

end OptionSyntax

namespace ColumnSyntax

/-- The parameters of the type as a clause has them. -/
def clauseParameters (s : ColumnSyntax) : List String :=
  (s.parameters.map fun p => p.parameters.map (·.asIdentifier.text)).getD []

/-- The operation that the definition is in a clause that adds it. -/
def operation (s : ColumnSyntax) : AlterOperation where
  options := ["ADD", "COLUMN"]
  field := some s.column
  tokens := .identifier s.column :: clauseTokens 0 s.name.introducesName (s.type :: s.tail)

theorem alterClause_lexemes (s : ColumnSyntax) {add column : Lexeme}
    (hadd : add.token = .keyword "ADD") (hcolumn : column.token = .keyword "COLUMN") (stop : Nat) :
    Cursor.alterClause ⟨add :: column :: s.lexemes, stop⟩ = .ok s.operation := by
  have tokens : namedRemainder s.lexemes =
      .identifier s.column :: clauseTokens 0 s.name.introducesName (s.type :: s.tail) := by
    simp [namedRemainder, remainder, lexemes, clauseTokens_flat (flat_of_name? s.named),
      asIdentifier, s.named]
  have clause : Cursor.columnClause ⟨s.lexemes, stop⟩ ["ADD", "COLUMN"] = .ok s.operation := by
    simp only [Cursor.columnClause, name_lexemes, tokens]
    rfl
  simp [Cursor.alterClause, hadd, Token.keyword?, Cursor.next, Cursor.addClause, Cursor.keyword?,
    hcolumn, clause]

/-- The column that a clause describes; without a type if its word is taken for a name. -/
def clause (s : ColumnSyntax) : ColumnClause where
  typeName := if s.name.introducesName then none else some s.typeName
  parameters := if s.name.introducesName then [] else s.clauseParameters
  options := ((OptionSyntax.visible false s.options).filterMap OptionSyntax.option?).filter
    ColumnOption.modifies

theorem introducesName_type (s : ColumnSyntax) : s.type.introducesName = false := by
  have untyped : ∀ word ∈ nameIntroducers, ColumnMethod.isKnown word = false := by
    intro word listed
    exact ColumnMethod.isKnown_eq_false (List.mem_append_left _ listed)
  rw [introducesName_keyword s.typed, List.any_eq_false]
  intro word listed same
  rw [beq_iff_eq] at same
  have known := s.known
  rw [same, untyped word listed] at known
  exact Bool.false_ne_true known

theorem scanFrom_tail (s : ColumnSyntax) (clause : ColumnClause) :
    clause.scanFrom (clauseTokens 0 false s.tail) = clause.withOptions s.clause.options := by
  cases given : s.parameters with
  | none =>
      simp only [tail, given, Option.map_none, Option.getD_none, List.nil_append]
      exact OptionSyntax.scanFrom_flatMap s.options clause false
  | some p =>
      simp only [tail, given, Option.map_some, Option.getD_some, ParameterSyntax.lexemes,
        List.cons_append, List.append_assoc, List.nil_append]
      rw [clauseTokens_group p.opens p.balanced p.closes, OptionSyntax.scanFrom_group]
      exact OptionSyntax.scanFrom_flatMap s.options clause false

theorem opensGroup_clauseTokens (before : Bool) (ls : List Lexeme) :
    (clauseTokens 0 before ls).head?.any (·.isPunct '(') = opensGroup ls := by
  cases ls with
  | nil => rfl
  | cons l ls => cases before <;> simp [clauseTokens, opensGroup, isPunct_asIdentifier]

theorem parameters_tail (s : ColumnSyntax) :
    (if (clauseTokens 0 false s.tail).head?.any (·.isPunct '(') then
      parameterTexts (clauseTokens 0 false s.tail) else []) = s.clauseParameters := by
  rw [opensGroup_clauseTokens]
  cases given : s.parameters with
  | none =>
      have closed := OptionSyntax.opensGroup_flatMap s.options
      simp [tail, given, closed, clauseParameters]
  | some p =>
      have opened : opensGroup s.tail = true := by
        simp [opensGroup, tail, given, ParameterSyntax.lexemes, p.opens, Token.isPunct]
      rw [if_pos opened]
      simp only [tail, given, Option.map_some, Option.getD_some, ParameterSyntax.lexemes,
        List.cons_append, List.append_assoc, List.nil_append, clauseParameters]
      rw [clauseTokens_group p.opens p.balanced p.closes]
      rcases p.separated with ⟨none, empty⟩ | separated
      · rw [none, empty]
        rfl
      · exact parameterTexts_separated p.single separated _

theorem scan_lexemes (s : ColumnSyntax) :
    ColumnClause.scan (clauseTokens 0 s.name.introducesName (s.type :: s.tail)) = s.clause := by
  rw [ColumnClause.scan, clauseTokens_flat (flat_of_keyword s.typed), s.introducesName_type]
  cases hidden : s.name.introducesName with
  | true =>
      rw [if_pos rfl, OptionSyntax.scanFrom_hidden, scanFrom_tail]
      simp [ColumnClause.withOptions, clause, hidden]
  | false =>
      rw [if_neg Bool.false_ne_true, s.typed, ColumnClause.scanFrom]
      simp only [Token.keyword?, s.known, Option.isNone_none, Bool.and_self, if_true,
        parameters_tail, scanFrom_tail]
      simp [ColumnClause.withOptions, clause, hidden]

end ColumnSyntax

end TableShift
