import Mathlib.Data.List.Basic
import TableShift.Proofs.Boundary
import TableShift.Proofs.ColumnReading
import TableShift.Proofs.Layout
import TableShift.Proofs.Spelling

/-! # A column in a new table and an added column

The two readings of a column definition lead to the same declaration. They lead to the
same modifiers exactly when the options that a clause does not see make no difference.
-/

namespace TableShift

open Lexeme

/-! ## Modifiers -/

theorem modifierCalls_congr {xs ys : List ColumnOption}
    (present : ∀ m ∈ presentModifiers,
      ((xs.find? (·.name == m.option)).bind fun o => m.call? o.value?) =
        (ys.find? (·.name == m.option)).bind fun o => m.call? o.value?)
    (absent : ∀ m ∈ absentModifiers,
      (xs.find? (·.name == m.option)).isNone = (ys.find? (·.name == m.option)).isNone) :
    modifierCalls xs = modifierCalls ys := by
  simp only [modifierCalls]
  congr 1
  · exact List.filterMap_congr present
  · rw [List.filter_congr absent]

theorem modifierCalls_of_find? {xs ys : List ColumnOption}
    (h : ∀ m ∈ presentModifiers ++ absentModifiers,
      xs.find? (·.name == m.option) = ys.find? (·.name == m.option)) :
    modifierCalls xs = modifierCalls ys := by
  rw [List.forall_mem_append] at h
  apply modifierCalls_congr
  · intro m listed
    rw [h.1 m listed]
  · intro m listed
    rw [h.2 m listed]

theorem find?_filter_of_kept {keep found : ColumnOption → Bool}
    (kept : ∀ option, found option = true → keep option = true) (options : List ColumnOption) :
    (options.filter keep).find? found = options.find? found := by
  induction options with
  | nil => rfl
  | cons option options ih =>
      cases here : found option with
      | true => simp [kept option here, here]
      | false => cases stays : keep option <;> simp [stays, here, ih]

theorem find?_filter_of_dropped {keep found : ColumnOption → Bool}
    (dropped : ∀ option, found option = true → keep option = false)
    (options : List ColumnOption) : (options.filter keep).find? found = none := by
  rw [List.find?_eq_none]
  intro option member here
  have stays := (List.mem_filter.mp member).2
  rw [dropped option here] at stays
  contradiction

theorem modifierCalls_filter (options : List ColumnOption) :
    modifierCalls (options.filter ColumnOption.modifies) = modifierCalls options := by
  have counted : ∀ m ∈ presentModifiers ++ absentModifiers,
      ((Modifier.find? m.option).isSome || absentModifiers.any (·.option == m.option)) = true := by
    decide
  apply modifierCalls_of_find?
  intro m listed
  apply find?_filter_of_kept
  intro option same
  rw [beq_iff_eq] at same
  rw [ColumnOption.modifies, same]
  exact counted m listed

/-- Whether options stand at the type or at the column does not count. -/
theorem modifierCalls_sorted (options : List ColumnOption) :
    modifierCalls (options.filter ColumnOption.ofType ++ options.filter (!·.ofType)) =
      modifierCalls options := by
  apply modifierCalls_of_find?
  intro m _
  -- All options of one name stand at the same place.
  have place (option : ColumnOption) (same : (option.name == m.option) = true) :
      option.ofType = (ColumnOption.flag m.option).ofType := by
    rw [beq_iff_eq] at same
    rw [ColumnOption.ofType, same]
    rfl
  rw [List.find?_append]
  cases type : (ColumnOption.flag m.option).ofType with
  | true =>
      rw [find?_filter_of_kept fun option same => (place option same).trans type,
        find?_filter_of_dropped fun option same => by simp [place option same, type], Option.or_none]
  | false =>
      rw [find?_filter_of_dropped fun option same => (place option same).trans type,
        find?_filter_of_kept fun option same => by simp [place option same, type], Option.none_or]

/-- Two options of one name that lead to the same call. -/
def ColumnOption.SameCall (x y : ColumnOption) : Prop :=
  x.name = y.name ∧ ∀ m ∈ presentModifiers, m.option = x.name → m.call? x.value? = m.call? y.value?

theorem modifierCalls_sameCall {xs ys : List ColumnOption}
    (h : List.Forall₂ ColumnOption.SameCall xs ys) : modifierCalls xs = modifierCalls ys := by
  apply modifierCalls_congr
  · intro m listed
    induction h with
    | nil => rfl
    | @cons x y xs ys same _ ih =>
        by_cases here : x.name = m.option
        · simpa [here, same.1 ▸ here] using same.2 m listed here.symm
        · simpa [here, same.1 ▸ here] using ih
  · intro m _
    induction h with
    | nil => rfl
    | @cons x y xs ys same _ ih =>
        by_cases here : x.name = m.option
        · simp [here, same.1 ▸ here]
        · simpa [here, same.1 ▸ here] using ih

namespace OptionSyntax

theorem plainValue_eq_toValue {l : Lexeme} (plain : PlainValue l.token) (spelled : l.Spelled) :
    l.plainValue = l.token.toValue := by
  cases token : l.token with
  | literal value => simp [plainValue, token, Token.toValue]
  | identifier name =>
      rw [Spelled, token] at spelled
      cases spelled
      simp [plainValue, token, Token.toValue, Token.sql]
  | keyword word =>
      rw [token] at plain
      cases plain
      simp [plainValue, token, Token.toValue]
  | punct mark =>
      rw [token] at plain
      cases plain

theorem text_plainValue {l : Lexeme} {name : String} (named : l.name? = some name)
    (proper : l.token ≠ .keyword "NULL") (spelled : l.Spelled) : l.plainValue.text = name := by
  cases token : l.token with
  | literal value =>
      cases value <;> simp [name?, token] at named
      simp [plainValue, token, Value.text, named]
  | identifier word =>
      rw [Spelled, token] at spelled
      cases spelled
      simp only [name?, token, Option.some.injEq] at named
      simp [plainValue, token, Value.text, named]
  | keyword word =>
      have other : word ≠ "NULL" := fun null => proper (by rw [token, null])
      simp only [name?, token, Option.some.injEq] at named
      simp [plainValue, token, Value.text, named, other]
  | punct mark => simp [name?, token] at named

theorem sameCall_after {x y : Value} (same : x.text = y.text) :
    (ColumnOption.keyValue "AFTER" x).SameCall (.keyValue "AFTER" y) := by
  have quoted : ∀ m ∈ presentModifiers, m.option = "AFTER" → m.argument = .quoted := by decide
  refine ⟨rfl, fun m listed after => ?_⟩
  simp [Modifier.call?, quoted m listed after, ColumnOption.value?, same]

theorem sameCall_options {options : List OptionSyntax}
    (spelled : ∀ l ∈ options.flatMap lexemes, l.Spelled) :
    List.Forall₂ ColumnOption.SameCall (options.filterMap created?) (options.filterMap option?) := by
  induction options with
  | nil => exact .nil
  | cons option options ih =>
      rw [List.flatMap_cons, List.forall_mem_append] at spelled
      have later := ih spelled.2
      cases option with
      | flag head word _ _ => exact .cons ⟨rfl, fun _ _ _ => rfl⟩ later
      | comment head text value _ _ => exact .cons ⟨rfl, fun _ _ _ => rfl⟩ later
      | check => exact later
      | valued head content word _ _ plain =>
          have value := plainValue_eq_toValue plain (spelled.1 content (by simp [lexemes]))
          refine .cons ?_ later
          rw [value]
          exact ⟨rfl, fun _ _ _ => rfl⟩
      | after head name column _ named proper =>
          have text := text_plainValue named proper (spelled.1 name (by simp [lexemes]))
          exact .cons (sameCall_after text) later

end OptionSyntax

/-! ## Lines -/

theorem Modifier.eq_of_method {m n : Modifier} (hm : m ∈ presentModifiers ++ absentModifiers)
    (hn : n ∈ presentModifiers ++ absentModifiers) (h : m.method = n.method) : m = n := by
  have distinct : ∀ m ∈ presentModifiers ++ absentModifiers,
      ∀ n ∈ presentModifiers ++ absentModifiers, m.method = n.method → m = n := by decide
  exact distinct m hm n hn h

theorem ModifierCall.code_injective {x y : ModifierCall}
    (hx : x.modifier ∈ presentModifiers ++ absentModifiers)
    (hy : y.modifier ∈ presentModifiers ++ absentModifiers) (h : x.code = y.code) : x = y := by
  have names : ∀ m ∈ presentModifiers ++ absentModifiers,
      m.method.toList.all (· != '(') = true := by decide
  have plain (m : Modifier) (listed : m ∈ presentModifiers ++ absentModifiers) :
      ∀ c ∈ m.method.toList, (c != '(') = true :=
    List.all_eq_true.mp (names m listed)
  have opens : ('(' != '(') = false := rfl
  have chars : x.modifier.method.toList ++ '(' :: (x.argument.toList ++ [')']) =
      y.modifier.method.toList ++ '(' :: (y.argument.toList ++ [')']) := by
    have lists := congrArg String.toList h
    simpa [code, String.toList_append, List.append_assoc] using lists
  have methods := congrArg (List.takeWhile (· != '(')) chars
  have arguments := congrArg (List.dropWhile (· != '(')) chars
  rw [List.takeWhile_append_of_pos (plain _ hx), List.takeWhile_append_of_pos (plain _ hy)] at methods
  rw [List.dropWhile_append_of_pos (plain _ hx), List.dropWhile_append_of_pos (plain _ hy)] at arguments
  have modifier : x.modifier = y.modifier := by
    apply Modifier.eq_of_method hx hy
    simpa [opens, String.toList_inj] using methods
  have argument : x.argument = y.argument := by
    simpa [opens, String.toList_inj] using arguments
  obtain ⟨_, _⟩ := x
  obtain ⟨_, _⟩ := y
  simp only at modifier argument
  rw [modifier, argument]

theorem modifier_of_call? {m : Modifier} {value : Option Value} {call : ModifierCall}
    (h : m.call? value = some call) : call.modifier = m := by
  unfold Modifier.call? at h
  split at h <;> cases h <;> rfl

theorem modifier_of_mem {options : List ColumnOption} {call : ModifierCall}
    (h : call ∈ modifierCalls options) : call.modifier ∈ presentModifiers ++ absentModifiers := by
  simp only [modifierCalls, List.mem_append, List.mem_filterMap, List.mem_filter,
    Option.bind_eq_some_iff] at h
  rcases h with ⟨m, listed, _, _, made⟩ | ⟨m, ⟨listed, _⟩, made⟩
  · rw [modifier_of_call? made]
    exact List.mem_append_left _ listed
  · rw [modifier_of_call? made]
    exact List.mem_append_right _ listed

namespace Line

theorem pushLast_eq_nil {fragment : String} {ls : List Line} (h : pushLast fragment ls = []) :
    ls = [] := by
  match ls with
  | [] => rfl
  | [l] => simp [pushLast] at h
  | l :: next :: ls => simp [pushLast] at h

theorem pushLast_injective {fragment : String} {xs ys : List Line}
    (h : pushLast fragment xs = pushLast fragment ys) : xs = ys := by
  fun_induction pushLast fragment xs generalizing ys with
  | case1 => exact (pushLast_eq_nil h.symm).symm
  | case2 l =>
      match ys with
      | [] => simp [pushLast] at h
      | [m] =>
          obtain ⟨depth, text⟩ := l
          obtain ⟨depth', text'⟩ := m
          simpa [pushLast] using h
      | m :: next :: ys =>
          simp only [pushLast, List.cons.injEq] at h
          exact absurd (pushLast_eq_nil h.2.symm) (List.cons_ne_nil _ _)
  | case3 l ls several ih =>
      match ys with
      | [] => simp [pushLast] at h
      | [m] =>
          simp only [pushLast, List.cons.injEq] at h
          exact absurd (pushLast_eq_nil h.2) (by simpa using several)
      | m :: next :: ys =>
          simp only [pushLast, List.cons.injEq] at h
          rw [h.1, ih h.2]

end Line

theorem calls_eq_of_code {xs ys : List ModifierCall}
    (hx : ∀ x ∈ xs, x.modifier ∈ presentModifiers ++ absentModifiers)
    (hy : ∀ y ∈ ys, y.modifier ∈ presentModifiers ++ absentModifiers)
    (h : xs.map ModifierCall.code = ys.map ModifierCall.code) : xs = ys := by
  induction xs generalizing ys with
  | nil => simpa using h.symm
  | cons x xs ih =>
      cases ys with
      | nil => simp at h
      | cons y ys =>
          rw [List.forall_mem_cons] at hx hy
          rw [List.map_cons, List.map_cons, List.cons.injEq] at h
          rw [ModifierCall.code_injective hx.1 hy.1 h.1, ih hx.2 hy.2 h.2]

theorem TableCommand.lines_column_eq_iff (declaration : Declaration) (xs ys : List ColumnOption) :
    (column declaration (modifierCalls xs) false).lines =
      (column declaration (modifierCalls ys) false).lines ↔ modifierCalls xs = modifierCalls ys := by
  constructor
  · intro h
    have calls := List.tail_eq_of_cons_eq (Line.pushLast_injective h)
    have codes := congrArg (List.map Line.text) calls
    apply calls_eq_of_code (fun _ => modifier_of_mem) (fun _ => modifier_of_mem)
    simpa [Function.comp_def] using codes
  · intro h
    rw [h]

/-! ## Agreement -/

namespace ColumnSyntax

/-- All options of the definition, as a clause has them. -/
def allOptions (s : ColumnSyntax) : List ColumnOption :=
  s.options.filterMap OptionSyntax.option?

/-- The options of the definition that a clause sees. -/
def visibleOptions (s : ColumnSyntax) : List ColumnOption :=
  (OptionSyntax.visible false s.options).filterMap OptionSyntax.option?

/-- A parameter is the same length in both readings: a keyword is none in either. -/
theorem length?_parameter {l : Lexeme} (spelled : l.Spelled) :
    length? (trim l.asIdentifier.text) = length? (trim l.token.text) := by
  cases token : l.token with
  | literal value => cases value <;> simp [asIdentifier, name?, token, Token.text, Token.toValue,
      Value.text, Token.sql]
  | identifier name => simp [asIdentifier, name?, token]
  | punct mark => simp [asIdentifier, name?, token]
  | keyword word =>
      rw [Spelled, token] at spelled
      cases spelled with
      | keyword lettered spelled =>
          have upper : Token.text (.keyword word) = word := by
            by_cases null : word = "NULL"
            · simp [Token.text, Token.toValue, null, Value.text]
            · simp [Token.text, Token.toValue, null, Value.text, Token.sql]
          have own : l.asIdentifier.text = l.raw := by
            simp [asIdentifier, name?, token, Token.text, Token.toValue, Value.text, Token.sql]
          rw [own, upper, length?_trim_of_letter lettered, length?_trim_of_letter spelled]

theorem of?_agrees (s : ColumnSyntax) (spelled : ∀ l ∈ s.lexemes, l.Spelled) :
    Declaration.of? s.typeName s.column s.clauseParameters =
      Declaration.of? s.typeName s.column s.createdParameters := by
  cases given : s.parameters with
  | none => simp [clauseParameters, createdParameters, given]
  | some p =>
      cases listed : p.parameters with
      | nil => simp [clauseParameters, createdParameters, given, listed]
      | cons l ls =>
          have inside : l ∈ p.inside := p.mem_inside (by simp [listed])
          have member : l ∈ s.lexemes := by
            simp [lexemes, tail, given, ParameterSyntax.lexemes, inside]
          have first := length?_parameter (spelled l member)
          simp [clauseParameters, createdParameters, given, listed, Declaration.of?, first]

theorem exists_declaration (s : ColumnSyntax) :
    ∃ declaration, Declaration.of? s.typeName s.column s.createdParameters = some declaration := by
  obtain ⟨method, found⟩ := Option.isSome_iff_exists.mp s.known
  simp [Declaration.of?, found]

theorem lines_field (s : ColumnSyntax) (spelled : ∀ l ∈ s.lexemes, l.Spelled)
    (autoIncrement : List String) {declaration : Declaration}
    (declared : Declaration.of? s.typeName s.column s.createdParameters = some declaration) :
    s.field.lines autoIncrement =
      (TableCommand.column declaration (modifierCalls s.allOptions) false).lines := by
  have options : ∀ l ∈ s.options.flatMap OptionSyntax.lexemes, l.Spelled := by
    intro l member
    exact spelled l (by simp [lexemes, tail, member])
  have calls : modifierCalls s.field.mergedOptions = modifierCalls s.allOptions := calc
    _ = modifierCalls (s.options.filterMap OptionSyntax.created?) := modifierCalls_sorted _
    _ = _ := modifierCalls_sameCall (OptionSyntax.sameCall_options options)
  have command : s.field.columnCommand? =
      some (.column declaration (modifierCalls s.allOptions) false) := by
    rw [← calls]
    simp [Field.columnCommand?, field, declared]
  have unkeyed : s.field.key = none := rfl
  simp [Field.lines, Field.commands, command, unkeyed]

theorem lines_operation (s : ColumnSyntax) (table : String) {declaration : Declaration}
    (declared : Declaration.of? s.typeName s.column s.clauseParameters = some declaration) :
    s.operation.lines table =
      if s.name.introducesName then []
      else (TableCommand.column declaration (modifierCalls s.visibleOptions) false).lines := by
  have kind : AlterKind.classify? s.operation.options s.operation.tokens =
      some (.addColumn, s.operation.tokens) := rfl
  have calls : modifierCalls s.clause.options = modifierCalls s.visibleOptions :=
    modifierCalls_filter _
  have effect : s.operation.effect? table =
      s.operation.columnEffect? table s.operation.tokens false := by
    simp only [AlterOperation.effect?, kind]
  rw [AlterOperation.lines, effect]
  simp only [operation, AlterOperation.columnEffect?, Option.getD_some, scan_lexemes, calls]
  cases hidden : s.name.introducesName with
  | true => simp [clause, hidden]
  | false => simp [clause, hidden, declared]

/-- A definition is read in a new table and in a clause that adds a column, and the lines
    that both write are the same exactly when its name is none of the keywords that make
    the next word a name and the options that directly follow such a name make no
    difference to the modifiers. -/
theorem lines_agree_iff (s : ColumnSyntax)
    (tokenized : ∀ l ∈ s.lexemes, ∃ script ls, tokenize script = .ok ls ∧ l ∈ ls)
    (add column : Lexeme) (hadd : add.token = .keyword "ADD")
    (hcolumn : column.token = .keyword "COLUMN") :
    ∃ field operation,
      (Cursor.ofSlice s.lexemes).definition = .ok (some field) ∧
      (Cursor.ofSlice (add :: column :: s.lexemes)).alterClause = .ok operation ∧
      ∀ autoIncrement table, field.lines autoIncrement = operation.lines table ↔
        s.name.introducesName = false ∧
          modifierCalls s.visibleOptions = modifierCalls s.allOptions := by
  have spelled : ∀ l ∈ s.lexemes, l.Spelled := by
    intro l member
    obtain ⟨script, ls, read, listed⟩ := tokenized l member
    exact spelled_of_tokenize read l listed
  obtain ⟨declaration, declared⟩ := s.exists_declaration
  have clauseDeclared := (s.of?_agrees spelled).trans declared
  refine ⟨s.field, s.operation, s.definition_lexemes _, s.alterClause_lexemes hadd hcolumn _, ?_⟩
  intro autoIncrement table
  rw [s.lines_field spelled autoIncrement declared, s.lines_operation table clauseDeclared]
  cases hidden : s.name.introducesName with
  | true =>
      refine iff_of_false ?_ (by simp)
      intro same
      exact absurd (Line.pushLast_eq_nil same) (List.cons_ne_nil _ _)
  | false =>
      rw [if_neg Bool.false_ne_true, TableCommand.lines_column_eq_iff, eq_comm]
      simp

/-- The definition `name VARCHAR(50) AFTER to NULL NOT NULL`. -/
def nameAfterTo : ColumnSyntax where
  name := ⟨.identifier "name", "name", 11, 15⟩
  column := "name"
  type := ⟨.keyword "VARCHAR", "VARCHAR", 16, 23⟩
  typeName := "VARCHAR"
  parameters := some
    { opening := ⟨.punct '(', "(", 23, 24⟩
      closing := ⟨.punct ')', ")", 26, 27⟩
      parameters := [⟨.literal (.number "50"), "50", 24, 26⟩]
      inside := [⟨.literal (.number "50"), "50", 24, 26⟩]
      opens := rfl
      closes := rfl
      single := by
        intro l listed
        rw [List.mem_singleton] at listed
        subst listed
        exact ⟨by simp, .flat ⟨rfl, rfl⟩ .nil, by simp [Token.isPunct]⟩
      separated := .inr (.one _) }
  options :=
    [.after ⟨.keyword "AFTER", "AFTER", 28, 33⟩ ⟨.keyword "TO", "to", 34, 36⟩ "to" rfl rfl (by simp),
      .flag ⟨.keyword "NULL", "NULL", 37, 41⟩ "NULL" rfl (by decide),
      .flag ⟨.keyword "NOT NULL", "NOT NULL", 42, 50⟩ "NOT NULL" rfl (by decide)]
  named := rfl
  unreserved := by simp
  typed := rfl
  known := by decide

/-- The words before an added column at the beginning of a script. -/
def addWord : Lexeme := ⟨.keyword "ADD", "ADD", 0, 3⟩

@[inherit_doc addWord]
def columnWord : Lexeme := ⟨.keyword "COLUMN", "COLUMN", 4, 10⟩

/-- Of this definition a clause does not see `NULL`, which makes no difference. -/
theorem lines_agree_nameAfterTo :
    tokenize "ADD COLUMN name VARCHAR(50) AFTER to NULL NOT NULL" =
        .ok (addWord :: columnWord :: nameAfterTo.lexemes) ∧
      ∃ field operation,
        (Cursor.ofSlice nameAfterTo.lexemes).definition = .ok (some field) ∧
        (Cursor.ofSlice (addWord :: columnWord :: nameAfterTo.lexemes)).alterClause =
          .ok operation ∧
        ∀ autoIncrement table, field.lines autoIncrement = operation.lines table := by
  have read : tokenize "ADD COLUMN name VARCHAR(50) AFTER to NULL NOT NULL" =
      .ok (addWord :: columnWord :: nameAfterTo.lexemes) := by decide +kernel
  have tokenized : ∀ l ∈ nameAfterTo.lexemes, ∃ script ls, tokenize script = .ok ls ∧ l ∈ ls :=
    fun l member => ⟨_, _, read, List.mem_cons_of_mem _ (List.mem_cons_of_mem _ member)⟩
  obtain ⟨field, operation, defined, clause, agree⟩ :=
    nameAfterTo.lines_agree_iff tokenized addWord columnWord rfl rfl
  refine ⟨read, field, operation, defined, clause, fun autoIncrement table => ?_⟩
  exact (agree autoIncrement table).mpr (by decide)

/-- Of the definition `to INT` a clause does not see the type, and writes nothing. -/
theorem lines_differ_to :
    tokenize "ADD COLUMN to INT" =
        .ok [addWord, columnWord, ⟨.keyword "TO", "to", 11, 13⟩, ⟨.keyword "INT", "INT", 14, 17⟩] ∧
      ∃ field operation,
        (Cursor.ofSlice [⟨.keyword "TO", "to", 11, 13⟩, ⟨.keyword "INT", "INT", 14, 17⟩]).definition =
          .ok (some field) ∧
        (Cursor.ofSlice [addWord, columnWord, ⟨.keyword "TO", "to", 11, 13⟩,
          ⟨.keyword "INT", "INT", 14, 17⟩]).alterClause = .ok operation ∧
        field.lines [] = [⟨0, "$table->integer('to')"⟩, ⟨1, "->nullable();"⟩] ∧
        operation.lines "t" = [] := by
  refine ⟨by decide +kernel, ⟨some "to", some ⟨"INT", [], []⟩, [], none⟩,
    ⟨["ADD", "COLUMN"], some "to", [.identifier "to", .identifier "INT"]⟩, ?_, ?_, ?_, ?_⟩
  · decide +kernel
  · decide +kernel
  · decide +kernel
  · decide +kernel

end ColumnSyntax

end TableShift
