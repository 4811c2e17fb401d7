import TableShift.Migration.Batch
import TableShift.Proofs.ClauseNames
import TableShift.Proofs.ColumnAgreement
import TableShift.Proofs.FieldCommands
import TableShift.Proofs.Numerals
import TableShift.Proofs.WellFormed

/-! # Defaults of several tokens

A default may be a group in parentheses, or a function called with one. A new table keeps the
whole value, however its parentheses are nested; a clause that adds or changes the column takes
the token behind `DEFAULT` and passes over the others. So the clause never has the default that
the same definition has in a new table.
-/

namespace TableShift

open Lexeme

/-! ## Texts with a parenthesis -/

theorem defaultArgument_of_paren {sql : String} (h : '(' ∈ sql.toList) :
    defaultArgument (.expr sql) = sql := by
  have proper : sameFolded sql "NULL" = false := sameFolded_null_of_mem h (by decide)
  have unnumbered : isNumeric sql = false := by
    rw [Bool.eq_false_iff]
    intro numeric
    have others : isBlank '(' = false ∧ isNumeralChar '(' = false := by decide
    rcases isBlank_or_isNumeralChar numeric '(' h with blank | char
    · simp [others.1] at blank
    · simp [others.2] at char
  simp [defaultArgument, proper, unnumbered]

theorem eq_of_defaultArgument {sql other : String} (h : defaultArgument (.expr sql) = other)
    (paren : '(' ∈ other.toList) : sql = other := by
  have inside : '(' ∈ sql.toList := by
    subst h
    simp only [defaultArgument] at paren
    split at paren
    · exact absurd paren (by decide)
    · split at paren
      · simpa [String.toList_append] using paren
      · exact paren
  rw [← h, defaultArgument_of_paren inside]

theorem paren_not_mem_of_isVocabulary {word : String} (h : IsVocabulary word) :
    '(' ∉ word.toList := by
  have plain : ∀ word ∈ plainKeywords, '(' ∉ word.toList := by decide +kernel
  have types : ∀ method ∈ columnMethods, '(' ∉ (upperAscii method.sqlType).toList := by
    decide +kernel
  have compounds : ∀ words ∈ compoundKeywords, '(' ∉ (joinWith " " words).toList := by
    decide +kernel
  rcases h with listed | ⟨words, listed, rfl⟩
  · simp only [isKeywordWord, Bool.or_eq_true, List.contains_iff_mem, ColumnMethod.isKnown,
      Option.isSome_iff_exists] at listed
    rcases listed with listed | ⟨method, found⟩
    · exact plain word listed
    · have same := List.find?_some found
      simp only [sameFolded, beq_iff_eq] at same
      intro member
      apply types method (List.mem_of_find?_eq_some found)
      rw [same]
      simpa [upperAscii] using ⟨'(', member, by decide⟩
  · exact compounds words listed

/-! ## Defaults of more than one token -/

/-- The words that can be called. -/
inductive Token.Callable : Token → Prop where
  | identifier (name : String) : Callable (.identifier name)
  | keyword {word : String} (proper : word ≠ "NULL") : Callable (.keyword word)

/-- A value that is a group in parentheses, or a function called with one. -/
structure CompoundValue where
  function : Option Lexeme
  opening : Lexeme
  closing : Lexeme
  inside : List Lexeme
  callable : ∀ l ∈ function, l.token.Callable
  opens : opening.token = .punct '('
  closes : closing.token = .punct ')'
  balanced : Balanced inside

namespace CompoundValue

def lexemes (s : CompoundValue) : List Lexeme :=
  s.function.toList ++ s.opening :: (s.inside ++ [s.closing])

/-- The first lexeme of the value. -/
def first (s : CompoundValue) : Lexeme :=
  s.function.getD s.opening

/-- The text of the whole value. -/
def sql (s : CompoundValue) : String :=
  (s.function.map Lexeme.raw).getD "" ++ "(" ++ expressionText s.inside ++ ")"

theorem exists_cons (s : CompoundValue) : ∃ others, s.lexemes = s.first :: others := by
  cases given : s.function with
  | none => exact ⟨_, by rw [lexemes, first, given]; rfl⟩
  | some l => exact ⟨_, by rw [lexemes, first, given]; rfl⟩

theorem paren_mem_sql (s : CompoundValue) : '(' ∈ s.sql.toList := by
  simp [sql, String.toList_append]

theorem optionValue_append (s : CompoundValue) (rest : List Lexeme) (stop : Nat) :
    Cursor.optionValue ⟨s.lexemes ++ rest, stop⟩ = .ok (.expr s.sql, ⟨rest, stop⟩) := by
  have group := Cursor.group_balanced s.opens s.balanced s.closes rest stop
  have opened : Cursor.atPunct ⟨s.opening :: (s.inside ++ s.closing :: rest), stop⟩ '(' = true := by
    simp [Cursor.atPunct, s.opens, Token.isPunct]
  cases given : s.function with
  | none => simp [Cursor.optionValue, lexemes, sql, given, s.opens, group]
  | some l =>
      have callable := s.callable l given
      cases token : l.token with
      | identifier name =>
          simp [Cursor.optionValue, lexemes, sql, given, token, Token.isKeyword, Cursor.next,
            opened, group]
      | keyword word =>
          rw [token] at callable
          cases callable with
          | keyword proper =>
              simp [Cursor.optionValue, lexemes, sql, given, token, Token.isKeyword, proper,
                Cursor.next, opened, group]
      | literal | punct =>
          rw [token] at callable
          cases callable

theorem argument_first_ne (s : CompoundValue) (spelled : ∀ l ∈ s.function, l.Spelled)
    (listed : ∀ l ∈ s.function, ∀ word, l.token = .keyword word → IsVocabulary word) :
    defaultArgument s.first.token.toValue ≠ s.sql := by
  intro same
  cases given : s.function with
  | none =>
      have value : s.first.token.toValue = .expr "(" := by
        simp [first, given, s.opens, Token.toValue, Token.sql]
      rw [value] at same
      have whole := congrArg String.length (eq_of_defaultArgument same s.paren_mem_sql)
      simp only [sql, String.length_append] at whole
      have shorter : "(".length = 1 ∧ ")".length = 1 := ⟨rfl, rfl⟩
      omega
  | some l =>
      have callable := s.callable l given
      have text := spelled l given
      cases token : l.token with
      | identifier name =>
          have value : s.first.token.toValue = .expr name := by
            simp [first, given, token, Token.toValue, Token.sql]
          rw [value] at same
          rw [Spelled, token] at text
          cases text
          have whole := congrArg String.length (eq_of_defaultArgument same s.paren_mem_sql)
          simp only [sql, given, Option.map_some, Option.getD_some, String.length_append] at whole
          have marked : "(".length = 1 := rfl
          omega
      | keyword word =>
          rw [token] at callable
          cases callable with
          | keyword proper =>
              have value : s.first.token.toValue = .expr word := by
                simp [first, given, token, Token.toValue, Token.sql, proper]
              rw [value] at same
              have plain := paren_not_mem_of_isVocabulary (listed l given word token)
              rw [eq_of_defaultArgument same s.paren_mem_sql] at plain
              exact plain s.paren_mem_sql
      | literal | punct =>
          rw [token] at callable
          cases callable

end CompoundValue

/-- Whether the word after a lexeme is taken for the value of an option or for a name. -/
def Lexeme.awaitsWord (l : Lexeme) : Bool :=
  l.introducesName || l.token.keyword?.any (· ∈ typeValueNames ++ columnValueNames)

/-- A column definition with a default of more than one token. The default is the first of
    the definition, it stands outside parentheses, and nothing before it takes it for a value
    or a name. -/
structure CompoundColumn where
  column : String
  name : List Lexeme
  named : Denotes column name
  unkeyed : Cursor.atAnyKeyword ⟨name, 0⟩ keyClauseWords = false
  type : Lexeme
  unqualified : type.token.isPunct '.' = false
  /-- What stands between the type and the default. -/
  middle : List Lexeme
  closed : (type :: middle).foldl depthAfter 0 = 0
  head : Lexeme
  spelled : head.token = .keyword "DEFAULT"
  first : ∀ l ∈ name.tail ++ type :: middle, l.token ≠ .keyword "DEFAULT"
  free : ∀ l, [l] <:+ type :: middle → l.awaitsWord = false
  value : CompoundValue
  /-- What stands behind the default. -/
  after : List Lexeme

/-! ## In a new table -/

/-- The first default among the options of a column, if there is one, has this value. -/
def ColumnTail.DefaultsTo (value : Value) (tail : ColumnTail) : Prop :=
  ∀ option, tail.options.find? (·.name == "DEFAULT") = some option →
    option = .keyValue "DEFAULT" value

namespace ColumnTail.DefaultsTo

variable {value : Value} {tail : ColumnTail}

theorem nil : DefaultsTo value {} := by
  simp [DefaultsTo]

theorem consDefault (value : Value) (tail : ColumnTail) :
    (tail.consOption (.keyValue "DEFAULT" value)).DefaultsTo value := by
  intro option found
  exact (Option.some.inj found).symm

theorem consOption (h : tail.DefaultsTo value) {option : ColumnOption}
    (other : option.name ≠ "DEFAULT") : (tail.consOption option).DefaultsTo value := by
  simpa [DefaultsTo, ColumnTail.consOption, other] using h

end ColumnTail.DefaultsTo

namespace Cursor

section Later

-- What stands before a bound that opens no group is read up to it, option by option.
variable {column : String} {P : ColumnTail → Prop} {bound : Lexeme} {ls rest : List Lexeme}
  {stop : Nat} (bare : bound.token.isPunct '(' = false)
  (later : ∀ {left : List Lexeme} {outer : Nat}, left <:+ ls → left.foldl depthAfter outer = 0 →
    Gives (columnTail column ⟨left ++ bound :: rest, stop⟩) P)
include bare later

theorem gives_of_value (nonempty : ls ≠ []) {outer : Nat} (closed : ls.foldl depthAfter outer = 0)
    (put : Value → ColumnTail → ColumnTail) (kept : ∀ value tail, P tail → P (put value tail)) :
    Gives (optionValue ⟨ls ++ bound :: rest, stop⟩ >>= fun read =>
      (columnTail column read.2).map (put read.1)) P := by
  obtain ⟨first, others, rfl⟩ := List.exists_cons_of_ne_nil nonempty
  obtain ⟨read, found, left⟩ := exists_optionValue bare closed stop
  rw [List.cons_append, found]
  cases read with
  | error e => exact .error e
  | ok here =>
      obtain ⟨ends, outer, closed⟩ := left here rfl
      exact .map fun tail taken => kept _ _
        (later (ends.trans (List.suffix_cons first others)) closed tail taken)

theorem gives_of_check {outer : Nat} (closed : ls.foldl depthAfter outer = 0) :
    Gives (if atPunct ⟨ls ++ bound :: rest, stop⟩ '(' then
        group ⟨ls ++ bound :: rest, stop⟩ >>= fun read => columnTail column read.2
      else columnTail column ⟨ls ++ bound :: rest, stop⟩) P := by
  cases called : opensGroup ls with
  | true =>
      obtain ⟨opening, inner, rfl, opens⟩ := exists_of_opensGroup called
      obtain ⟨inside, left, group, closed, ends⟩ := exists_group opens closed
      have opened : atPunct ⟨opening :: inner ++ bound :: rest, stop⟩ '(' = true :=
        Token.isPunct_iff.mpr opens
      rw [if_pos opened, List.cons_append, group]
      exact later (ends.trans (List.suffix_cons opening inner)) closed
  | false =>
      have unopened : atPunct ⟨ls ++ bound :: rest, stop⟩ '(' = false :=
        opensGroup_append_cons bare called rest
      rw [unopened]
      exact later (List.suffix_refl ls) closed

end Later

variable {column : String} {head : Lexeme} (spelled : head.token = .keyword "DEFAULT")
include spelled

theorem columnTail_default (value : CompoundValue) (after : List Lexeme) (stop : Nat) :
    Gives (columnTail column ⟨head :: (value.lexemes ++ after), stop⟩)
      (ColumnTail.DefaultsTo (.expr value.sql)) := by
  have read := columnTail_cons column (c := ⟨head :: (value.lexemes ++ after), stop⟩) rfl
  have next : Cursor.next ⟨head :: (value.lexemes ++ after), stop⟩ =
      ⟨value.lexemes ++ after, stop⟩ := rfl
  simp only [spelled, Token.keyword?, OptionRole.ofKeyword, next, value.optionValue_append] at read
  rw [read]
  exact .map fun tail _ => .consDefault _ tail

/-- Behind options of other names the default is still the first, unless a reference ends
    the options before it. -/
theorem columnTail_gives_default (value : CompoundValue) (after : List Lexeme) (stop : Nat)
    {ls : List Lexeme} {outer : Nat} (closed : ls.foldl depthAfter outer = 0)
    (first : ∀ l ∈ ls, l.token ≠ .keyword "DEFAULT")
    (free : ∀ l, [l] <:+ ls → l.awaitsWord = false) :
    Gives (columnTail column ⟨ls ++ head :: (value.lexemes ++ after), stop⟩)
      (ColumnTail.DefaultsTo (.expr value.sql)) := by
  have bare : head.token.isPunct '(' = false := by simp [spelled, Token.isPunct]
  -- Along the lexemes before the default, an option at a time.
  induction size : ls.length using Nat.strongRecOn generalizing ls outer with
  | ind _ ih =>
  cases ls with
  | nil => exact columnTail_default spelled value after stop
  | cons l ls =>
      have later {left : List Lexeme} {outer : Nat} (ends : left <:+ ls)
          (closed : left.foldl depthAfter outer = 0) :=
        ih left.length (by rw [← size]; exact Nat.lt_succ_of_le ends.length_le) closed
          (fun l member => first l (List.mem_cons_of_mem _ (ends.subset member)))
          (fun l last => free l (last.trans (ends.trans (List.suffix_cons _ ls)))) rfl
      have closed : ls.foldl depthAfter (depthAfter outer l) = 0 := closed
      have skipped := later (List.suffix_refl ls) closed
      rw [List.cons_append, columnTail_cons column rfl]
      simp only [next, List.tail_cons]
      cases spelling : l.token.keyword? with
      | none => exact skipped
      | some word =>
          have token : l.token = .keyword word := Token.keyword?_eq_some_iff.mp spelling
          have other : word ≠ "DEFAULT" := by
            rintro rfl
            exact first l List.mem_cons_self token
          have nonempty (listed : word ∈ typeValueNames ++ columnValueNames) : ls ≠ [] := by
            rintro rfl
            have awaits : l.awaitsWord = true := by
              simp only [awaitsWord, spelling, Option.any_some, listed, decide_true, Bool.or_true]
            rw [free l (List.suffix_refl _)] at awaits
            cases awaits
          have named := OptionRole.fits_ofKeyword word
          dsimp only
          cases role : OptionRole.ofKeyword word with
          | reference => exact .ok .nil
          | typeFlag | key kind => exact .map skipped
          | flag => exact .map fun tail taken => (skipped tail taken).consOption other
          | typeValue =>
              rw [role] at named
              exact gives_of_value bare later (nonempty (List.mem_append_left _ named)) closed
                (fun value => .consType (.keyValue word value)) fun _ _ kept => kept
          | value =>
              rw [role] at named
              exact gives_of_value bare later (nonempty (List.mem_append_right _ named)) closed
                (fun value => .consOption (.keyValue word value))
                fun _ _ kept => kept.consOption other
          | check => exact gives_of_check bare later closed

omit spelled in
/-- The parameters of a type end before a bound that opens no group. -/
theorem typeParameters_gives {bound : Lexeme} (bare : bound.token.isPunct '(' = false)
    {ls : List Lexeme} {outer : Nat} (closed : ls.foldl depthAfter outer = 0) (rest : List Lexeme)
    (stop : Nat) :
    Gives (typeParameters ⟨ls ++ bound :: rest, stop⟩) fun read => ∃ left outer, left <:+ ls ∧
      left.foldl depthAfter outer = 0 ∧ read.2 = ⟨left ++ bound :: rest, stop⟩ := by
  unfold typeParameters
  cases called : opensGroup ls with
  | true =>
      obtain ⟨opening, inner, rfl, opens⟩ := exists_of_opensGroup called
      obtain ⟨inside, left, group, closed, ends⟩ := exists_group opens closed
      have opened : atPunct ⟨opening :: inner ++ bound :: rest, stop⟩ '(' = true :=
        Token.isPunct_iff.mpr opens
      rw [if_pos opened, List.cons_append, group]
      exact .ok ⟨left, outer, ends.trans (List.suffix_cons opening inner), closed, rfl⟩
  | false =>
      have unopened : atPunct ⟨ls ++ bound :: rest, stop⟩ '(' = false :=
        opensGroup_append_cons bare called rest
      rw [unopened]
      exact .ok ⟨ls, outer, List.suffix_refl ls, closed, rfl⟩

end Cursor

namespace CompoundColumn

def lexemes (s : CompoundColumn) : List Lexeme :=
  s.name ++ s.type :: (s.middle ++ s.head :: (s.value.lexemes ++ s.after))

theorem name_lexemes (s : CompoundColumn) (stop : Nat) :
    Cursor.name ⟨s.lexemes, stop⟩ =
      .ok (s.column, ⟨s.type :: (s.middle ++ s.head :: (s.value.lexemes ++ s.after)), stop⟩) :=
  Cursor.name_denoted s.named s.unqualified

theorem definition_gives_default (s : CompoundColumn) (stop : Nat) :
    Gives (Cursor.definition ⟨s.lexemes, stop⟩) fun field => ∀ f ∈ field, ∀ option,
      f.options.find? (·.name == "DEFAULT") = some option →
        option = .keyValue "DEFAULT" (.expr s.value.sql) := by
  have unkeyed : Cursor.atAnyKeyword ⟨s.lexemes, stop⟩ keyClauseWords = false := by
    obtain ⟨l, others, name, _⟩ := s.named.exists_cons
    have unkeyed := s.unkeyed
    rw [name] at unkeyed
    rw [lexemes, name]
    exact unkeyed
  have bare : s.head.token.isPunct '(' = false := by simp [s.spelled, Token.isPunct]
  have closed : s.middle.foldl depthAfter (depthAfter 0 s.type) = 0 := s.closed
  have absent := (List.forall_mem_cons.mp (List.forall_mem_append.mp s.first).2).2
  unfold Cursor.definition
  rw [unkeyed]
  refine .bind (P := fun field => ∀ option, field.options.find? (·.name == "DEFAULT") =
    some option → option = .keyValue "DEFAULT" (.expr s.value.sql)) ?_ ?_
  · simp only [Cursor.column, s.name_lexemes, bind, Except.bind]
    split
    · exact .complain _ _
    · refine .bind (Cursor.typeParameters_gives bare closed _ stop) ?_
      rintro ⟨parameters, _⟩ ⟨left, outer, ends, closed, rfl⟩
      refine .bind (Cursor.columnTail_gives_default s.spelled s.value s.after stop closed
        (fun l member => absent l (ends.subset member))
        fun l last => s.free l (last.trans (ends.trans (List.suffix_cons _ _)))) ?_
      intro tail defaults
      exact .ok defaults
  · intro field defaults
    refine .ok fun f found => ?_
    cases Option.mem_some.mp found
    exact defaults

end CompoundColumn

/-! ## The call that sets a default -/

/-- The call that sets the default of a column that is declared. -/
def TableCommand.defaultCall? : TableCommand → Option ModifierCall
  | column _ modifiers _ => modifiers.find? (·.modifier.method == "default")
  | _ => none

/-- The call that sets the default in a new table. -/
def Field.defaultCall? (field : Field) (autoIncrement : List String) : Option ModifierCall :=
  (field.commands autoIncrement).findSome? TableCommand.defaultCall?

/-- The call that sets the default in the alteration of a table. -/
def AlterOperation.defaultCall? (operation : AlterOperation) (table : String) :
    Option ModifierCall :=
  ((operation.effect? table).toList.flatMap ClauseEffect.up).findSome? TableCommand.defaultCall?

theorem exists_default_of_call {options : List ColumnOption} {call : ModifierCall}
    (h : (modifierCalls options).find? (·.modifier.method == "default") = some call) :
    ∃ option value, options.find? (·.name == "DEFAULT") = some option ∧
      option.value? = some value ∧ call.argument = defaultArgument value := by
  have present : ∀ m ∈ presentModifiers, m.method = "default" →
      m = ⟨"DEFAULT", "default", .default⟩ := by decide
  have absent : ∀ m ∈ absentModifiers, m.method ≠ "default" := by decide
  have method : call.modifier.method = "default" := by simpa using List.find?_some h
  have member := List.mem_of_find?_eq_some h
  simp only [modifierCalls, List.mem_append, List.mem_filterMap, List.mem_filter,
    Option.bind_eq_some_iff] at member
  rcases member with ⟨m, listed, option, found, made⟩ | ⟨m, ⟨listed, _⟩, made⟩
  · rw [modifier_of_call? made] at method
    obtain rfl := present m listed method
    cases given : option.value? with
    | none => simp [Modifier.call?, given] at made
    | some value =>
        refine ⟨option, value, found, given, ?_⟩
        simp only [Modifier.call?, given, Option.some.injEq] at made
        rw [← made]
  · rw [modifier_of_call? made] at method
    exact absurd method (absent m listed)

theorem Field.call_of_defaultCall? {field : Field} {autoIncrement : List String}
    {call : ModifierCall} (h : field.defaultCall? autoIncrement = some call) :
    (modifierCalls field.mergedOptions).find? (·.modifier.method == "default") = some call := by
  obtain ⟨command, member, found⟩ := List.exists_of_findSome?_eq_some h
  rw [commands, List.mem_append, Option.mem_toList, Option.mem_toList] at member
  rcases member with column | key
  · obtain ⟨_, _, _, _, _, rfl⟩ := columnCommand?_eq_some_iff.mp column
    exact found
  · obtain ⟨key, _, made⟩ := Option.bind_eq_some_iff.mp key
    obtain rfl | ⟨_, rfl, _⟩ := exists_of_keyCommand? made <;> contradiction

theorem CompoundColumn.argument_of_field (s : CompoundColumn) {field : Field} {stop : Nat}
    (defined : Cursor.definition ⟨s.lexemes, stop⟩ = .ok (some field))
    {autoIncrement : List String} {call : ModifierCall}
    (h : field.defaultCall? autoIncrement = some call) : call.argument = s.value.sql := by
  obtain ⟨option, value, found, given, argument⟩ :=
    exists_default_of_call (Field.call_of_defaultCall? h)
  have typed : ∀ option : ColumnOption, option.OfType → option.name ≠ "DEFAULT" := by
    rintro _ (known | ⟨known, value⟩) rfl
    · exact absurd known (by decide)
    · exact absurd known (by decide)
  have own : field.options.find? (·.name == "DEFAULT") = some option := by
    have wellFormed := Cursor.definition_gives _ _ defined field rfl
    cases wellFormed with
    | key => simp [Field.mergedOptions] at found
    | column name type options key typeOptions =>
        have absent : type.options.find? (·.name == "DEFAULT") = none := by
          rw [List.find?_eq_none]
          intro option member
          simpa using typed option (typeOptions option member)
        simpa [Field.mergedOptions, List.find?_append, absent] using found
  obtain rfl := s.definition_gives_default stop _ defined field rfl option own
  cases given
  rw [argument, defaultArgument_of_paren s.value.paren_mem_sql]

/-! ## In a clause -/

namespace ColumnClause

theorem options_scanFrom (clause : ColumnClause) (tokens : List Token) :
    clause.options <+: (scanFrom clause tokens).options := by
  fun_induction scanFrom clause tokens with
  | case1 | case4 => exact List.prefix_refl _
  | case2 _ _ _ _ ih | case3 _ _ _ _ _ _ _ ih | case8 _ _ _ _ _ _ _ _ ih => exact ih
  | case5 _ _ _ _ _ _ _ _ _ _ ih | case6 _ _ _ _ _ _ _ _ _ ih | case7 _ _ _ _ _ _ _ _ ih =>
      exact (List.prefix_append _ _).trans ih

/-- Behind tokens without a default, and of which none takes it for a value, the default is the
    first. -/
theorem find?_scanFrom {before : List Token} (first : .keyword "DEFAULT" ∉ before)
    (free : ∀ word, [.keyword word] <:+ before →
      (Modifier.find? word).any Modifier.takesValue = false)
    {clause : ColumnClause} (absent : clause.options.find? (·.name == "DEFAULT") = none)
    (value : Token) (rest : List Token) :
    (scanFrom clause (before ++ .keyword "DEFAULT" :: value :: rest)).options.find?
      (·.name == "DEFAULT") = some (.keyValue "DEFAULT" value.toValue) := by
  have kept (option : ColumnOption) (clause : ColumnClause) (other : option.name ≠ "DEFAULT")
      (absent : clause.options.find? (·.name == "DEFAULT") = none) :
      (clause.withOption option).options.find? (·.name == "DEFAULT") = none := by
    simp [withOption, List.find?_append, absent, other]
  -- Along the tokens before the default; a modifier takes the token after it.
  induction size : before.length using Nat.strongRecOn generalizing before clause with
  | ind _ ih =>
  cases before with
  | nil =>
      have untyped : ColumnMethod.isKnown "DEFAULT" = false :=
        ColumnMethod.isKnown_eq_false (by simp [valueWords])
      have option : [ColumnOption.keyValue "DEFAULT" value.toValue].filter ColumnOption.modifies =
          [.keyValue "DEFAULT" value.toValue] := rfl
      obtain ⟨more, options⟩ := options_scanFrom
        (clause.withOptions [.keyValue "DEFAULT" value.toValue]) rest
      rw [List.nil_append, scanFrom_value clause untyped (by decide), option, ← options]
      simp only [withOptions]
      rw [List.append_assoc, List.find?_append, absent]
      rfl
  | cons token before =>
      have later {left : List Token} {clause : ColumnClause} (ends : left <:+ before)
          (absent : clause.options.find? (·.name == "DEFAULT") = none) :=
        ih left.length (by rw [← size]; exact Nat.lt_succ_of_le ends.length_le)
          (fun member => first (List.mem_cons_of_mem _ (ends.subset member)))
          (fun word last => free word (last.trans (ends.trans (List.suffix_cons _ before))))
          absent rfl
      have skipped {clause : ColumnClause}
          (absent : clause.options.find? (·.name == "DEFAULT") = none) :=
        later (List.suffix_refl before) absent
      rw [List.cons_append, scanFrom]
      cases spelling : token.keyword? with
      | none => exact skipped absent
      | some word =>
          obtain rfl := Token.keyword?_eq_some_iff.mp spelling
          have other : word ≠ "DEFAULT" := by
            rintro rfl
            exact first List.mem_cons_self
          dsimp only
          split
          · exact skipped absent
          · cases found : Modifier.find? word with
            | none =>
                dsimp only
                split
                · exact skipped (kept _ _ other absent)
                · exact skipped absent
            | some modifier =>
                dsimp only
                split
                next takes =>
                  cases before with
                  | nil => simpa [found, takes] using free word (List.suffix_refl _)
                  | cons taken before =>
                      exact later (List.suffix_cons taken before) (kept _ _ other absent)
                next => exact skipped (kept _ _ other absent)

end ColumnClause

namespace Lexeme

theorem exists_of_keyword_mem {word : String} {depth : Nat} {before : Bool} {ls : List Lexeme}
    (h : .keyword word ∈ clauseTokens depth before ls) : ∃ l ∈ ls, l.token = .keyword word := by
  induction ls generalizing depth before with
  | nil => simp [clauseTokens] at h
  | cons l ls ih =>
      rw [clauseTokens, List.mem_cons] at h
      rcases h with here | later
      · refine ⟨l, List.mem_cons_self, ?_⟩
        split at here
        · have hidden := keyword?_asIdentifier l
          rw [← here] at hidden
          cases hidden
        · exact here.symm
      · obtain ⟨l, member, spelled⟩ := ih later
        exact ⟨l, List.mem_cons_of_mem _ member, spelled⟩

theorem exists_of_keyword_suffix {word : String} {depth : Nat} {before : Bool} {ls : List Lexeme}
    (h : [.keyword word] <:+ clauseTokens depth before ls) :
    ∃ l, [l] <:+ ls ∧ l.token = .keyword word := by
  rcases List.eq_nil_or_concat ls with rfl | ⟨front, l, rfl⟩
  · simp [clauseTokens] at h
  · rw [List.concat_eq_append, clauseTokens_append] at h
    have last : [.keyword word] <:+ clauseTokens (front.foldl depthAfter depth)
        (nameFollows before front) [l] :=
      List.suffix_of_suffix_length_le h (List.suffix_append _ _) (by simp [clauseTokens])
    obtain ⟨l', member, spelled⟩ := exists_of_keyword_mem (last.subset List.mem_cons_self)
    rw [List.mem_singleton] at member
    subst member
    exact ⟨l', by simp, spelled⟩

end Lexeme

/-- The words before a column definition in a clause that adds or changes the column. -/
inductive Lexeme.Declares : List Lexeme → Prop where
  | add {add word : Lexeme} (verb : add.token = .keyword "ADD")
      (spelled : word.token = .keyword "COLUMN") : Declares [add, word]
  | change {change : Lexeme} {name : String} {old : List Lexeme}
      (verb : change.token = .keyword "CHANGE") (named : Denotes name old)
      (unworded : Cursor.atKeyword ⟨old, 0⟩ "COLUMN" = false) : Declares (change :: old)
  | changeColumn {change word : Lexeme} {name : String} {old : List Lexeme}
      (verb : change.token = .keyword "CHANGE") (spelled : word.token = .keyword "COLUMN")
      (named : Denotes name old) : Declares (change :: word :: old)

theorem Lexeme.takesValue_of_awaitsWord {l : Lexeme} {word : String}
    (spelled : l.token = .keyword word) (free : l.awaitsWord = false) :
    (Modifier.find? word).any Modifier.takesValue = false := by
  have valued : ∀ m ∈ presentModifiers, m.takesValue = true →
      m.option ∈ typeValueNames ++ columnValueNames := by decide
  rw [Bool.eq_false_iff]
  intro takes
  obtain ⟨modifier, found, takes⟩ := (Option.any_eq_true _ _).mp takes
  have option : modifier.option = word := by simpa using List.find?_some found
  have listed := valued modifier (List.mem_of_find?_eq_some found) takes
  rw [option] at listed
  simp only [awaitsWord, spelled, Token.keyword?, Option.any_some, listed, decide_true,
    Bool.or_true] at free
  cases free

namespace CompoundColumn

theorem closed_front (s : CompoundColumn) :
    (s.name ++ s.type :: s.middle).foldl depthAfter 0 = 0 := by
  rw [List.foldl_append, foldl_depthAfter_balanced (balanced_of_flat (flat_of_denoted s.named)),
    s.closed]

theorem nameFollows_front (s : CompoundColumn) :
    nameFollows false (s.name ++ s.type :: s.middle) = false := by
  obtain ⟨front, last, whole⟩ :=
    (List.eq_nil_or_concat (s.type :: s.middle)).resolve_left (List.cons_ne_nil _ _)
  have free := s.free last ⟨front, by rw [whole, List.concat_eq_append]⟩
  rw [awaitsWord, Bool.or_eq_false_iff] at free
  rw [whole, List.concat_eq_append, ← List.append_assoc]
  simp [nameFollows, free.1]

theorem exists_namedRemainder (s : CompoundColumn) :
    ∃ name before more, namedRemainder s.lexemes =
        .identifier name :: (before ++ .keyword "DEFAULT" :: s.value.first.token :: more) ∧
      .keyword "DEFAULT" ∉ before ∧
      ∀ word, [.keyword word] <:+ before →
        (Modifier.find? word).any Modifier.takesValue = false := by
  obtain ⟨l, others, split, isName⟩ := s.named.exists_cons
  obtain ⟨name, named⟩ := Option.isSome_iff_exists.mp isName
  have identifier : l.asIdentifier = .identifier name := by simp [asIdentifier, named]
  have unintroduced : s.head.introducesName = false := by
    rw [introducesName_keyword s.spelled]
    decide
  obtain ⟨more, value⟩ : ∃ more, clauseTokens 0 false (s.value.lexemes ++ s.after) =
      s.value.first.token :: more := by
    obtain ⟨others, split⟩ := s.value.exists_cons
    rw [split, List.cons_append]
    exact ⟨_, rfl⟩
  have tokens : remainder s.lexemes = clauseTokens 0 false (s.name ++ s.type :: s.middle) ++
      .keyword "DEFAULT" :: s.value.first.token :: more := by
    have lexemes : s.lexemes = (s.name ++ s.type :: s.middle) ++
        s.head :: (s.value.lexemes ++ s.after) := by
      simp [CompoundColumn.lexemes]
    rw [remainder, lexemes, clauseTokens_append, s.closed_front, s.nameFollows_front,
      clauseTokens_flat (flat_of_keyword s.spelled), unintroduced, value, s.spelled]
    rfl
  have first := s.first
  rw [split, List.tail_cons] at first
  rw [split, List.cons_append, clauseTokens] at tokens
  refine ⟨name, clauseTokens (depthAfter 0 l) l.introducesName (others ++ s.type :: s.middle), more,
    ?_, ?_, ?_⟩
  · have named : namedRemainder s.lexemes = l.asIdentifier :: (remainder s.lexemes).tail := by
      rw [lexemes, split]
      rfl
    rw [named, tokens, identifier]
    rfl
  · intro member
    obtain ⟨l, listed, spelled⟩ := exists_of_keyword_mem member
    exact first l listed spelled
  · intro word ends
    obtain ⟨l, last, spelled⟩ := exists_of_keyword_suffix ends
    have free := s.free l
      (List.suffix_of_suffix_length_le last (List.suffix_append _ _) (by simp))
    exact takesValue_of_awaitsWord spelled free

theorem exists_operation (s : CompoundColumn) {front : List Lexeme} (h : Declares front)
    (stop : Nat) :
    ∃ options column change,
      Cursor.alterClause ⟨front ++ s.lexemes, stop⟩ =
        .ok ⟨options, some column, namedRemainder s.lexemes⟩ ∧
      ∀ name tokens table,
        AlterOperation.effect? ⟨options, some column, .identifier name :: tokens⟩ table =
          AlterOperation.columnEffect? ⟨options, some column, .identifier name :: tokens⟩ table
            (.identifier name :: tokens) change := by
  have undotted : Cursor.atPunct ⟨s.lexemes, stop⟩ '.' = false := by
    obtain ⟨l, others, split, isName⟩ := s.named.exists_cons
    rw [lexemes, split]
    cases token : l.token with
    | punct mark => simp [Lexeme.name?, token] at isName
    | keyword | identifier | literal => simp [Cursor.atPunct, token, Token.isPunct]
  cases h with
  | @add add word verb spelled =>
      refine ⟨["ADD", "COLUMN"], s.column, false, ?_, fun _ _ _ => rfl⟩
      simp [Cursor.alterClause, verb, Token.keyword?, Cursor.next, Cursor.addClause,
        Cursor.keyword?, spelled, Cursor.columnClause, s.name_lexemes, bind, Except.bind, pure,
        Except.pure]
  | @change change name old verb named unworded =>
      refine ⟨["CHANGE"], name, true, ?_, fun _ _ _ => rfl⟩
      have read := Cursor.name_denoted named undotted
      have unworded : Cursor.atKeyword ⟨old ++ s.lexemes, stop⟩ "COLUMN" = false := by
        obtain ⟨l, others, rfl, _⟩ := named.exists_cons
        exact unworded
      simp [Cursor.alterClause, verb, Token.keyword?, Cursor.next, Cursor.changeClause, unworded,
        Cursor.skipKeyword, read, bind, Except.bind, pure, Except.pure]
  | @changeColumn change word name old verb spelled named =>
      refine ⟨["CHANGE", "COLUMN"], name, true, ?_, fun _ _ _ => rfl⟩
      have read := Cursor.name_denoted named undotted
      have worded : Cursor.atKeyword ⟨word :: (old ++ s.lexemes), stop⟩ "COLUMN" = true := by
        simp [Cursor.atKeyword, spelled, Token.isKeyword]
      simp [Cursor.alterClause, verb, Token.keyword?, Cursor.next, Cursor.changeClause, worded,
        Cursor.skipKeyword, read, bind, Except.bind, pure, Except.pure]

end CompoundColumn

theorem AlterOperation.call_of_defaultCall? {operation : AlterOperation} {table name : String}
    {tokens : List Token} {change : Bool} (columned : operation.effect? table =
      operation.columnEffect? table (.identifier name :: tokens) change) {call : ModifierCall}
    (h : operation.defaultCall? table = some call) :
    (modifierCalls (ColumnClause.scan tokens).options).find? (·.modifier.method == "default") =
      some call := by
  obtain ⟨command, member, found⟩ := List.exists_of_findSome?_eq_some h
  rw [columned, columnEffect?] at member
  dsimp only at member
  split at member
  next => simp at member
  next declaration _ =>
    have declares :
        command = .column declaration (modifierCalls (ColumnClause.scan tokens).options) change ∨
          command = .renameColumn (operation.field.getD name) name := by
      cases change with
      | false => exact .inl (by simpa using member)
      | true =>
          simp only [if_true, Option.toList_some, List.flatMap_cons, List.flatMap_nil,
            List.append_nil, List.mem_cons] at member
          refine member.imp_right fun renames => ?_
          split at renames
          · simp at renames
          · simpa using renames
    rcases declares with rfl | rfl
    · exact found
    · contradiction

namespace CompoundColumn

/-- In a clause the default is the first token of the value. -/
theorem argument_of_operation (s : CompoundColumn) {options : List String} {column : String}
    {change : Bool} {table : String}
    (columned : ∀ name tokens,
      AlterOperation.effect? ⟨options, some column, .identifier name :: tokens⟩ table =
        AlterOperation.columnEffect? ⟨options, some column, .identifier name :: tokens⟩ table
          (.identifier name :: tokens) change) {call : ModifierCall}
    (h : AlterOperation.defaultCall? ⟨options, some column, namedRemainder s.lexemes⟩ table =
      some call) : call.argument = defaultArgument s.value.first.token.toValue := by
  obtain ⟨name, before, more, tokens, first, free⟩ := s.exists_namedRemainder
  rw [tokens] at h
  obtain ⟨option, value, found, given, argument⟩ :=
    exists_default_of_call (AlterOperation.call_of_defaultCall? (columned _ _) h)
  rw [ColumnClause.scan, ColumnClause.find?_scanFrom first free rfl] at found
  cases found
  cases given
  exact argument

/-- A definition that a new table has is read in a clause that adds or changes the column. In
    the new table its default is the whole value, in the clause the first token of it, so the
    two set the same default exactly if neither sets one. -/
theorem default_kept_iff (s : CompoundColumn)
    (tokenized : ∀ l ∈ s.lexemes, ∃ script ls, tokenize script = .ok ls ∧ l ∈ ls) {field : Field}
    (defined : (Cursor.ofSlice s.lexemes).definition = .ok (some field)) {front : List Lexeme}
    (declares : Declares front) :
    ∃ operation, (Cursor.ofSlice (front ++ s.lexemes)).alterClause = .ok operation ∧
      ∀ autoIncrement table,
        (∀ call, field.defaultCall? autoIncrement = some call → call.argument = s.value.sql) ∧
        (∀ call, operation.defaultCall? table = some call →
          call.argument = defaultArgument s.value.first.token.toValue) ∧
        (operation.defaultCall? table = field.defaultCall? autoIncrement ↔
          operation.defaultCall? table = none ∧ field.defaultCall? autoIncrement = none) := by
  obtain ⟨options, column, change, read, columned⟩ := s.exists_operation declares
    (Cursor.ofSlice (front ++ s.lexemes)).stop
  have function (l : Lexeme) (called : l ∈ s.value.function) : l ∈ s.lexemes := by
    simp [lexemes, CompoundValue.lexemes, Option.mem_toList.mpr called]
  have differs : defaultArgument s.value.first.token.toValue ≠ s.value.sql := by
    apply s.value.argument_first_ne
    · intro l called
      obtain ⟨script, ls, read, listed⟩ := tokenized l (function l called)
      exact spelled_of_tokenize read l listed
    · intro l called
      obtain ⟨script, ls, read, listed⟩ := tokenized l (function l called)
      exact isVocabulary_of_tokenize read l listed
  refine ⟨_, read, fun autoIncrement table => ?_⟩
  have created (call : ModifierCall) (h : field.defaultCall? autoIncrement = some call) :=
    s.argument_of_field defined h
  have altered (call : ModifierCall)
      (h : AlterOperation.defaultCall? ⟨options, some column, namedRemainder s.lexemes⟩ table =
        some call) :=
    s.argument_of_operation (fun name tokens => columned name tokens table) h
  refine ⟨created, altered, fun same => ?_, fun absent => absent.1.trans absent.2.symm⟩
  cases found : field.defaultCall? autoIncrement with
  | none => exact ⟨same.trans found, rfl⟩
  | some call =>
      have shortened := altered call (same.trans found)
      exact absurd (shortened.symm.trans (created call found)) differs

/-- The definition `c INT NOT NULL DEFAULT coalesce((1), 2) AFTER b`. -/
def coalesced : CompoundColumn where
  column := "c"
  name := [⟨.identifier "c", "c", 9, 10⟩]
  named := .last rfl
  unkeyed := rfl
  type := ⟨.keyword "INT", "INT", 11, 14⟩
  unqualified := rfl
  middle := [⟨.keyword "NOT NULL", "NOT NULL", 15, 23⟩]
  closed := rfl
  head := ⟨.keyword "DEFAULT", "DEFAULT", 24, 31⟩
  spelled := rfl
  first := by simp
  free := by simp [List.suffix_cons_iff, awaitsWord, introducesName, nameIntroducers,
    Token.isKeyword, Token.keyword?, typeValueNames, columnValueNames]
  value :=
    { function := some ⟨.identifier "coalesce", "coalesce", 32, 40⟩
      opening := ⟨.punct '(', "(", 40, 41⟩
      closing := ⟨.punct ')', ")", 47, 48⟩
      inside :=
        [⟨.punct '(', "(", 41, 42⟩, ⟨.literal (.number "1"), "1", 42, 43⟩,
          ⟨.punct ')', ")", 43, 44⟩, ⟨.punct ',', ",", 44, 45⟩,
          ⟨.literal (.number "2"), "2", 46, 47⟩]
      callable := by
        rintro _ ⟨⟩
        exact .identifier _
      opens := rfl
      closes := rfl
      balanced := @Balanced.group _ _ [_] _ rfl (.flat ⟨rfl, rfl⟩ .nil) rfl
        (.flat ⟨rfl, rfl⟩ (.flat ⟨rfl, rfl⟩ .nil)) }
  after := [⟨.keyword "AFTER", "AFTER", 49, 54⟩, ⟨.identifier "b", "b", 55, 56⟩]

/-- The words `CHANGE a`. -/
def changeWords : List Lexeme :=
  [⟨.keyword "CHANGE", "CHANGE", 0, 6⟩, ⟨.identifier "a", "a", 7, 8⟩]

/-- The field of the definition in a new table. -/
def coalescedField : Field where
  name := some "c"
  type := some ⟨"INT", [], []⟩
  options := [.flag "NOT NULL", .keyValue "DEFAULT" (.expr "coalesce(( 1 ) , 2)"),
    .keyValue "AFTER" (.expr "b")]

theorem default_kept_coalesced :
    tokenize "CHANGE a c INT NOT NULL DEFAULT coalesce((1), 2) AFTER b" =
        .ok (changeWords ++ coalesced.lexemes) ∧
      (Cursor.ofSlice coalesced.lexemes).definition = .ok (some coalescedField) ∧
      ∃ operation, (Cursor.ofSlice (changeWords ++ coalesced.lexemes)).alterClause = .ok operation ∧
        ∀ table, operation.defaultCall? table ≠ coalescedField.defaultCall? [] := by
  have read : tokenize "CHANGE a c INT NOT NULL DEFAULT coalesce((1), 2) AFTER b" =
      .ok (changeWords ++ coalesced.lexemes) := by decide +kernel
  have tokenized : ∀ l ∈ coalesced.lexemes, ∃ script ls, tokenize script = .ok ls ∧ l ∈ ls :=
    fun l member => ⟨_, _, read, List.mem_append_right _ member⟩
  have defined : (Cursor.ofSlice coalesced.lexemes).definition = .ok (some coalescedField) := by
    decide +kernel
  have declares : Declares changeWords := .change rfl (.last rfl) rfl
  obtain ⟨operation, clause, kept⟩ := coalesced.default_kept_iff tokenized defined declares
  refine ⟨read, defined, operation, clause, fun table same => ?_⟩
  have absent := ((kept [] table).2.2.mp same).2
  exact absurd absent (by decide +kernel)

/-- A new table has the sum for a default, an added column an opening parenthesis. -/
theorem default_differs_sum :
    Script.parse "CREATE TABLE t (c INT DEFAULT (1 + 2))" =
        .ok [.create ⟨"t", [⟨some "c", some ⟨"INT", [], []⟩,
          [.keyValue "DEFAULT" (.expr "(1 + 2)")], none⟩]⟩] ∧
      (Migration.each [.create ⟨"t", [⟨some "c", some ⟨"INT", [], []⟩,
          [.keyValue "DEFAULT" (.expr "(1 + 2)")], none⟩]⟩] 0).map Migration.up =
        ["Schema::create('t', function (Blueprint $table) \x7b\n\t$table->integer('c')\n" ++
          "\t\t->default((1 + 2))\n\t\t->nullable();\n\x7d);"] ∧
      Script.parse "ALTER TABLE t ADD COLUMN c INT DEFAULT (1 + 2)" =
        .ok [.alter ⟨"t", [⟨["ADD", "COLUMN"], some "c", [.identifier "c", .keyword "INT",
          .keyword "DEFAULT", .punct '(', .literal (.number "1"), .punct '+',
          .literal (.number "2"), .punct ')']⟩]⟩] ∧
      (Migration.each [.alter ⟨"t", [⟨["ADD", "COLUMN"], some "c", [.identifier "c",
          .keyword "INT", .keyword "DEFAULT", .punct '(', .literal (.number "1"), .punct '+',
          .literal (.number "2"), .punct ')']⟩]⟩] 0).map Migration.up =
        ["Schema::table('t', function (Blueprint $table) \x7b\n\t$table->integer('c')\n" ++
          "\t\t->default(()\n\t\t->nullable();\n\x7d);"] := by
  refine ⟨?_, ?_, ?_, ?_⟩
  · decide +kernel
  · decide +kernel
  · decide +kernel
  · decide +kernel

end CompoundColumn

end TableShift
