import TableShift.Proofs.ClauseNames
import TableShift.Proofs.Literals
import TableShift.Proofs.PrimaryKeys
import TableShift.Proofs.Remarks

/-! # Lines without line feeds

The code of a statement is made of fixed words and of texts that the statement has. So a
statement without a line feed in its texts has commands without one, and none of the lines
of its commands has one.
-/

namespace TableShift

/-- Whether a text has no line feed in it. -/
def Unbroken (text : String) : Prop :=
  '\n' ∉ text.toList

instance : DecidablePred Unbroken :=
  fun text => inferInstanceAs (Decidable ('\n' ∉ text.toList))

@[simp]
theorem unbroken_append {a b : String} : Unbroken (a ++ b) ↔ Unbroken a ∧ Unbroken b := by
  simp [Unbroken, not_or]

/-- Whether none of some texts has a line feed in it. -/
def AllUnbroken (texts : List String) : Prop :=
  ∀ text ∈ texts, Unbroken text

instance : DecidablePred AllUnbroken :=
  fun texts => inferInstanceAs (Decidable (∀ text ∈ texts, Unbroken text))

@[simp]
theorem allUnbroken_nil : AllUnbroken [] :=
  List.forall_mem_nil _

@[simp]
theorem allUnbroken_cons {text : String} {texts : List String} :
    AllUnbroken (text :: texts) ↔ Unbroken text ∧ AllUnbroken texts :=
  List.forall_mem_cons

@[simp]
theorem allUnbroken_append {xs ys : List String} :
    AllUnbroken (xs ++ ys) ↔ AllUnbroken xs ∧ AllUnbroken ys :=
  List.forall_mem_append

@[simp]
theorem allUnbroken_flatMap {α : Type} {f : α → List String} {as : List α} :
    AllUnbroken (as.flatMap f) ↔ ∀ a ∈ as, AllUnbroken (f a) :=
  List.forall_mem_flatMap

theorem unbroken_quote {text : String} (h : Unbroken text) : Unbroken (quote text) := by
  have written (c : Char) (feed : '\n' ∈ escapeQuoted c) : c = '\n' := by
    rcases escapeQuoted_cases c with ⟨-, escaped⟩ | ⟨-, escaped⟩ | ⟨-, -, escaped⟩
    · simp [escaped] at feed
    · simp [escaped] at feed
    · simpa [escaped, eq_comm] using feed
  simp only [Unbroken, quote, String.toList_ofList, List.mem_cons, List.mem_append,
    List.mem_flatMap, not_or, not_exists, not_and]
  refine ⟨⟨by decide, fun c listed feed => h (written c feed ▸ listed)⟩, by decide, by simp⟩

theorem unbroken_joinWith {separator : String} (h : Unbroken separator) {texts : List String}
    (each : AllUnbroken texts) : Unbroken (joinWith separator texts) := by
  fun_induction joinWith separator texts with
  | case1 => decide
  | case2 text => exact each text (List.mem_singleton_self _)
  | case3 text rest _ ih =>
      rw [allUnbroken_cons] at each
      simp [each.1, h, ih each.2]

theorem unbroken_join {texts : List String} (each : AllUnbroken texts) :
    Unbroken (String.join texts) := by
  induction texts with
  | nil => decide
  | cons text texts ih =>
      rw [allUnbroken_cons] at each
      rw [String.join_cons, unbroken_append]
      exact ⟨each.1, ih each.2⟩

theorem unbroken_quoteList {names : List String} (h : AllUnbroken names) :
    Unbroken (quoteList names) := by
  have joined : Unbroken (joinWith ", " (names.map quote)) :=
    unbroken_joinWith (by decide)
      (List.forall_mem_map.mpr fun name listed => unbroken_quote (h name listed))
  simp only [quoteList, unbroken_append, and_assoc]
  exact ⟨by decide, joined, by decide⟩

theorem unbroken_quoteNames {names : List String} (h : AllUnbroken names) :
    Unbroken (quoteNames names) := by
  unfold quoteNames
  split
  · decide
  · exact unbroken_quote (h _ (List.mem_singleton_self _))
  · exact unbroken_quoteList h

/-! ## Commands -/

/-- The texts in the target of a foreign key. -/
def References.texts (target : References) : List String :=
  target.table :: target.columns

def ModifierCall.texts (call : ModifierCall) : List String :=
  [call.modifier.method, call.argument]

/-- The texts that a drop has for its target. -/
def DropTarget.texts : DropTarget → List String
  | .name text => [text]
  | .columns texts => texts

/-- The texts in a command that its lines show. -/
def TableCommand.texts : TableCommand → List String
  | column declaration modifiers _ =>
    declaration.method.method :: declaration.column :: modifiers.flatMap ModifierCall.texts
  | key _ columns name => name.toList ++ columns
  | .foreign columns name target =>
    name.toList ++ columns ++ target.toList.flatMap References.texts
  | drop _ target => target.texts
  | rename table => [table]
  | renameColumn old new | renameIndex old new => [old, new]
  | remark operation target => [operation, target]

def SchemaCommand.texts : SchemaCommand → List String
  | create table body | alter table body => table :: body.flatMap TableCommand.texts
  | dropIfExists table => [table]
  | remark operation target => [operation, target]

theorem unbroken_toString (n : Nat) : Unbroken (toString n) := by
  rw [Unbroken, Nat.toString_eq_ofList_toDigits, String.toList_ofList]
  intro feed
  exact absurd (Nat.isDigit_of_mem_toDigits (by decide) (by decide) feed) (by decide)

theorem Declaration.unbroken_code {declaration : Declaration}
    (method : Unbroken declaration.method.method) (column : Unbroken declaration.column) :
    Unbroken declaration.code := by
  unfold code
  simp only [unbroken_append, and_assoc]
  refine ⟨by decide, method, by decide, ?_, by decide⟩
  split
  · simp only [unbroken_append, and_assoc]
    exact ⟨unbroken_quote column, by decide, unbroken_toString _⟩
  · exact unbroken_quote column

theorem ModifierCall.unbroken_code {call : ModifierCall} (h : AllUnbroken call.texts) :
    Unbroken call.code := by
  simp only [texts, allUnbroken_cons] at h
  simp only [code, unbroken_append, and_assoc]
  exact ⟨by decide, h.1, by decide, h.2.1, by decide⟩

theorem unbroken_keyCode (kind : KeyKind) {columns : List String} {name : Option String}
    (named : AllUnbroken name.toList) (each : AllUnbroken columns) :
    Unbroken (keyCode kind columns name) := by
  have method : Unbroken kind.method := by cases kind <;> decide
  simp only [keyCode, unbroken_append, and_assoc]
  refine ⟨by decide, method, by decide, unbroken_quoteNames each, by decide, ?_, by decide⟩
  split
  · exact unbroken_quote (named _ (List.mem_singleton_self _))
  · decide

theorem NameMethod.unbroken_method (method : NameMethod) : Unbroken method.method := by
  cases method <;> decide

theorem NameMethod.unbroken_chain (method : NameMethod) {names : List String}
    (h : AllUnbroken names) : Unbroken (method.chain names) := by
  simp only [chain, unbroken_append, and_assoc]
  exact ⟨by decide, method.unbroken_method, by decide, unbroken_quoteNames h, by decide⟩

theorem unbroken_remarkCode {operation target : String} (about : Unbroken operation)
    (name : Unbroken target) : Unbroken (remarkCode operation target) := by
  unfold remarkCode
  rw [unbroken_append, unbroken_append, unbroken_append, unbroken_append, and_assoc, and_assoc,
    and_assoc]
  exact ⟨by decide +kernel, about, by decide, name, by decide +kernel⟩

theorem ReferenceOption.unbroken_code (option : ReferenceOption) : Unbroken option.code := by
  have event : Unbroken option.event.method := by cases option.event <;> decide
  have action : Unbroken option.action.words := by cases option.action <;> decide
  simp only [code, unbroken_append, and_assoc]
  exact ⟨by decide, event, by decide, unbroken_quote action, by decide⟩

theorem Line.unbroken_pushLast {fragment : String} (h : Unbroken fragment) {ls : List Line}
    (each : ∀ l ∈ ls, Unbroken l.text) : ∀ l ∈ pushLast fragment ls, Unbroken l.text := by
  fun_induction pushLast fragment ls with
  | case1 => exact each
  | case2 l =>
      rw [List.forall_mem_singleton] at each ⊢
      exact unbroken_append.mpr ⟨each, h⟩
  | case3 l ls _ ih =>
      rw [List.forall_mem_cons] at each ⊢
      exact ⟨each.1, ih each.2⟩

theorem unbroken_foreignLines {columns : List String} {name : Option String}
    {target : Option References} (named : AllUnbroken name.toList) (each : AllUnbroken columns)
    (targeted : ∀ references ∈ target, AllUnbroken references.texts) :
    ∀ l ∈ foreignLines columns name target, Unbroken l.text := by
  have declaration := unbroken_keyCode .foreign named each
  unfold foreignLines
  cases target with
  | none => exact Line.unbroken_pushLast (by decide) (by simpa using declaration)
  | some references =>
      have texts := targeted references rfl
      simp only [References.texts, allUnbroken_cons] at texts
      have actions : Unbroken (String.join (references.options.map ReferenceOption.code)) :=
        unbroken_join (List.forall_mem_map.mpr fun option _ => option.unbroken_code)
      have columnLine : ∀ l ∈ (if references.columns.isEmpty then ([] : List Line)
          else [⟨1, NameMethod.references.chain references.columns⟩]), Unbroken l.text := by
        split
        · simp
        · simpa using NameMethod.references.unbroken_chain texts.2
      have tableLine : ∀ l ∈ (if references.table.isEmpty then ([] : List Line)
          else [⟨1, onTableCode references.table⟩]), Unbroken l.text := by
        split
        · simp
        · simp only [List.forall_mem_singleton, onTableCode, unbroken_append, and_assoc]
          exact ⟨by decide, unbroken_quote texts.1, by decide⟩
      apply Line.unbroken_pushLast (unbroken_append.mpr ⟨actions, by decide⟩)
      simp only [List.cons_append, List.forall_mem_cons, List.forall_mem_append]
      exact ⟨declaration, columnLine, tableLine⟩

theorem TableCommand.unbroken_lines {command : TableCommand}
    (h : AllUnbroken command.texts) : ∀ l ∈ command.lines, Unbroken l.text := by
  cases command with
  | column declaration modifiers change =>
      simp only [texts, allUnbroken_cons, allUnbroken_flatMap] at h
      have calls : ∀ call ∈ modifiers.map ModifierCall.code ++ (if change then ["->change()"] else []),
          Unbroken call := by
        rw [List.forall_mem_append, List.forall_mem_map]
        refine ⟨fun call listed => ?_, by split <;> simp +decide⟩
        exact call.unbroken_code (h.2.2 call listed)
      apply Line.unbroken_pushLast (by decide)
      rw [List.forall_mem_cons, List.forall_mem_map]
      exact ⟨declaration.unbroken_code h.1 h.2.1, calls⟩
  | key kind columns name =>
      simp only [texts, allUnbroken_append] at h
      simp only [lines, List.forall_mem_singleton, unbroken_append]
      exact ⟨unbroken_keyCode kind h.1 h.2, by decide⟩
  | «foreign» columns name target =>
      simp only [texts, allUnbroken_append, allUnbroken_flatMap, Option.mem_toList] at h
      exact unbroken_foreignLines h.1.1 h.1.2 h.2
  | drop method target =>
      cases target with
      | name name =>
          simp only [lines, NameMethod.onName, List.forall_mem_singleton, unbroken_append, and_assoc]
          exact ⟨by decide, method.unbroken_chain h, by decide⟩
      | columns columns =>
          simp only [lines, NameMethod.onColumns, List.forall_mem_singleton, unbroken_append,
            and_assoc]
          exact ⟨by decide, method.unbroken_method, by decide, unbroken_quoteList h, by decide,
            by decide⟩
  | rename table =>
      simp only [lines, List.forall_mem_singleton, unbroken_append, and_assoc]
      exact ⟨by decide, unbroken_quote (h table (List.mem_singleton_self _)), by decide⟩
  | renameColumn old new | renameIndex old new =>
      simp only [texts, allUnbroken_cons] at h
      simp only [lines, List.forall_mem_singleton, unbroken_append, and_assoc]
      exact ⟨by decide +kernel, unbroken_quote h.1, by decide, unbroken_quote h.2.1, by decide⟩
  | remark operation target =>
      simp only [texts, allUnbroken_cons] at h
      simp only [lines, List.forall_mem_singleton]
      exact unbroken_remarkCode h.1 h.2.1

/-! ## Statements -/

/-- The texts in an option. -/
def ColumnOption.texts (option : ColumnOption) : List String :=
  option.name :: option.value?.toList.map Value.text

/-- The texts in a column type. -/
def ColumnType.texts (type : ColumnType) : List String :=
  type.name :: type.parameters ++ type.options.flatMap ColumnOption.texts

def Key.texts (key : Key) : List String :=
  key.name.toList ++ key.columnNames ++ key.references.toList.flatMap References.texts

def Field.texts (field : Field) : List String :=
  field.name.toList ++ field.type.toList.flatMap ColumnType.texts ++
    field.options.flatMap ColumnOption.texts ++ field.key.toList.flatMap Key.texts

/-- The texts in a clause; a mark among its tokens is a text of one character. -/
def AlterOperation.texts (operation : AlterOperation) : List String :=
  operation.options ++ operation.field.toList ++ operation.tokens.map Token.text

/-- All texts that a statement has. -/
def Statement.texts : Statement → List String
  | create statement => statement.table :: statement.fields.flatMap Field.texts
  | alter statement => statement.table :: statement.operations.flatMap AlterOperation.texts
  | drop statement => statement.tables

/-! ### Columns -/

theorem unbroken_defaultArgument {value : Value} (h : Unbroken value.text) :
    Unbroken (defaultArgument value) := by
  have between (text : String) (inside : Unbroken text) : Unbroken ("\"" ++ text ++ "\"") := by
    simp only [unbroken_append, and_assoc]
    exact ⟨by decide, inside, by decide⟩
  cases value with
  | null => decide
  | number text => exact between text h
  | string text => exact unbroken_quote h
  | expr sql =>
      simp only [defaultArgument]
      split
      · decide
      · split
        · exact between sql h
        · exact h

theorem Modifier.unbroken_call? {m : Modifier} {value : Option Value} {call : ModifierCall}
    (method : Unbroken m.method) (h : ∀ v ∈ value, Unbroken v.text)
    (made : m.call? value = some call) : AllUnbroken call.texts := by
  unfold call? at made
  split at made
  · cases made
    simp [ModifierCall.texts, method, show Unbroken "" by decide]
  · cases made
    simpa [ModifierCall.texts, method] using unbroken_quote (h _ rfl)
  · cases made
    simpa [ModifierCall.texts, method] using unbroken_defaultArgument (h _ rfl)
  · contradiction

theorem allUnbroken_modifierCalls {options : List ColumnOption}
    (h : ∀ option ∈ options, AllUnbroken option.texts) :
    AllUnbroken ((modifierCalls options).flatMap ModifierCall.texts) := by
  have methods : ∀ m ∈ presentModifiers ++ absentModifiers, Unbroken m.method := by decide +kernel
  rw [allUnbroken_flatMap]
  intro call made
  simp only [modifierCalls, List.mem_append, List.mem_filterMap, List.mem_filter,
    Option.bind_eq_some_iff] at made
  rcases made with ⟨m, listed, option, found, made⟩ | ⟨m, ⟨listed, -⟩, made⟩
  · have texts := h option (List.mem_of_find?_eq_some found)
    refine m.unbroken_call? (methods m (List.mem_append_left _ listed)) ?_ made
    intro v given
    exact texts v.text (List.mem_cons_of_mem _ (List.mem_map_of_mem (Option.mem_toList.mpr given)))
  · exact m.unbroken_call? (methods m (List.mem_append_right _ listed)) (by simp) made

theorem Declaration.unbroken_method_of? {typeName column : String} {parameters : List String}
    {declaration : Declaration} (h : of? typeName column parameters = some declaration) :
    Unbroken declaration.method.method := by
  have methods : ∀ m ∈ columnMethods, Unbroken m.method := by decide +kernel
  unfold of? at h
  split at h
  · contradiction
  next method found =>
    cases h
    exact methods method (List.mem_of_find?_eq_some found)

theorem Field.allUnbroken_mergedOptions {field : Field} (h : AllUnbroken field.texts) :
    ∀ option ∈ field.mergedOptions, AllUnbroken option.texts := by
  simp only [texts, ColumnType.texts, allUnbroken_append, allUnbroken_cons, allUnbroken_flatMap,
    Option.mem_toList] at h
  intro option member
  unfold mergedOptions at member
  rcases List.mem_append.mp member with ofType | ofColumn
  · split at ofType
    next type typed => exact (h.1.1.2 type typed).2 option ofType
    next => exact absurd ofType List.not_mem_nil
  · exact h.1.2 option ofColumn

theorem Field.allUnbroken_keyCommand? {field : Field} {key : Key} {command : TableCommand}
    (named : AllUnbroken field.name.toList) (h : AllUnbroken key.texts)
    {autoIncrement : List String} (written : field.keyCommand? autoIncrement key = some command) :
    AllUnbroken command.texts := by
  simp only [Key.texts, allUnbroken_append] at h
  obtain ⟨⟨called, columns⟩, target⟩ := h
  have name : AllUnbroken (key.name.or field.name).toList := by
    cases given : key.name with
    | none => simpa using named
    | some _ => simpa [given] using called
  obtain rfl | ⟨_, rfl, rfl | rfl, -⟩ := exists_of_keyCommand? written
  · simp only [TableCommand.texts, allUnbroken_append]
    exact ⟨⟨name, columns⟩, target⟩
  · simpa [TableCommand.texts] using columns
  · simp only [TableCommand.texts, allUnbroken_append]
    exact ⟨name, columns⟩

theorem Field.allUnbroken_commands {field : Field} (h : AllUnbroken field.texts)
    (autoIncrement : List String) :
    ∀ command ∈ field.commands autoIncrement, AllUnbroken command.texts := by
  have options := allUnbroken_modifierCalls (Field.allUnbroken_mergedOptions h)
  simp only [texts, allUnbroken_append, allUnbroken_flatMap, Option.mem_toList] at h
  obtain ⟨⟨⟨named, -⟩, -⟩, keyed⟩ := h
  intro command member
  simp only [commands, List.mem_append, Option.mem_toList, Option.bind_eq_some_iff] at member
  rcases member with declared | ⟨key, given, declared⟩
  · obtain ⟨type, declaration, -, column, found, rfl⟩ := columnCommand?_eq_some_iff.mp declared
    simp only [TableCommand.texts, allUnbroken_cons]
    exact ⟨Declaration.unbroken_method_of? found,
      named _ (Option.mem_toList.mpr column), options⟩
  · exact allUnbroken_keyCommand? named (keyed key given) declared

/-! ### Clauses -/

namespace AlterOperation

theorem suffix_of_classify? {options : List String} {tokens found : List Token} {kind : AlterKind}
    (h : AlterKind.classify? options tokens = some (kind, found)) : found <:+ tokens := by
  obtain ⟨rule, -, given⟩ := Option.bind_eq_some_iff.mp h
  unfold ClauseRule.kind? at given
  dsimp only at given
  split at given
  next head applies =>
    cases given
    split
    · exact List.tail_suffix tokens
    · exact List.suffix_rfl
  next =>
    obtain ⟨_, -, same⟩ := Option.map_eq_some_iff.mp given
    cases same
    exact List.suffix_rfl

theorem allUnbroken_of_suffix {tokens found : List Token} (h : AllUnbroken (tokens.map Token.text))
    (ends : found <:+ tokens) : AllUnbroken (found.map Token.text) :=
  fun text member => h text ((ends.map Token.text).subset member)

theorem allUnbroken_textsToClose? {tokens : List Token} {texts : List String}
    (h : AllUnbroken (tokens.map Token.text)) (found : textsToClose? tokens = some texts) :
    AllUnbroken texts := by
  induction tokens generalizing texts with
  | nil => contradiction
  | cons token tokens ih =>
      rw [List.map_cons, allUnbroken_cons] at h
      rw [textsToClose?] at found
      split at found
      · cases found
        exact allUnbroken_nil
      · split at found
        · exact ih h.2 found
        · obtain ⟨later, read, rfl⟩ := Option.map_eq_some_iff.mp found
          exact allUnbroken_cons.mpr ⟨h.1, ih h.2 read⟩

theorem allUnbroken_parameterTexts {tokens : List Token}
    (h : AllUnbroken (tokens.map Token.text)) : AllUnbroken (parameterTexts tokens) := by
  unfold parameterTexts
  cases found : (tokensAfter? (·.isPunct '(') tokens).bind textsToClose? with
  | none => exact allUnbroken_nil
  | some texts =>
      obtain ⟨inside, opened, closed⟩ := Option.bind_eq_some_iff.mp found
      exact allUnbroken_textsToClose?
        (allUnbroken_of_suffix h (suffix_of_tokensAfter? opened)) closed

end AlterOperation

theorem Token.text_of_keyword? {token : Token} {word : String} (h : token.keyword? = some word) :
    token.text = word := by
  obtain rfl := keyword?_eq_some_iff.mp h
  unfold text toValue
  split
  · simp_all [Value.text]
  · contradiction
  · rfl

namespace ColumnClause

theorem allUnbroken_scanFrom {clause : ColumnClause} {tokens : List Token}
    (before : ∀ option ∈ clause.options, AllUnbroken option.texts)
    (h : AllUnbroken (tokens.map Token.text)) :
    ∀ option ∈ (clause.scanFrom tokens).options, AllUnbroken option.texts := by
  have extended {clause : ColumnClause} {added : ColumnOption}
      (before : ∀ option ∈ clause.options, AllUnbroken option.texts)
      (texts : AllUnbroken added.texts) :
      ∀ option ∈ (clause.withOption added).options, AllUnbroken option.texts := by
    rw [withOption, List.forall_mem_append, List.forall_mem_singleton]
    exact ⟨before, texts⟩
  have flag {token : Token} {word : String} (spelled : token.keyword? = some word)
      (text : Unbroken token.text) : AllUnbroken (ColumnOption.flag word).texts := by
    simpa [ColumnOption.texts, ColumnOption.name, ColumnOption.value?,
      Token.text_of_keyword? spelled] using text
  fun_induction scanFrom clause tokens with
  | case1 => exact before
  | case2 _ _ _ _ ih | case3 _ _ _ _ _ _ _ ih | case8 _ _ _ _ _ _ _ _ ih =>
      exact ih before (allUnbroken_cons.mp h).2
  | case4 => exact before
  | case5 clause token word spelled _ _ _ _ value tokens ih =>
      simp only [List.map_cons, allUnbroken_cons] at h
      refine ih (extended before ?_) h.2.2
      have name := h.1
      rw [Token.text_of_keyword? spelled] at name
      exact allUnbroken_cons.mpr ⟨name, allUnbroken_cons.mpr ⟨h.2.1, allUnbroken_nil⟩⟩
  | case6 _ _ _ _ spelled _ _ _ _ ih | case7 _ _ _ _ spelled _ _ _ ih =>
      rw [List.map_cons, allUnbroken_cons] at h
      exact ih (extended before (flag spelled h.1)) h.2

theorem allUnbroken_scan {tokens : List Token} (h : AllUnbroken (tokens.map Token.text)) :
    ∀ option ∈ (scan tokens).options, AllUnbroken option.texts :=
  allUnbroken_scanFrom (fun _ member => absurd member List.not_mem_nil) h

end ColumnClause

/-- The texts in what a clause contributes. -/
def ClauseEffect.texts (effect : ClauseEffect) : List String :=
  effect.up.flatMap TableCommand.texts ++ effect.down.texts ++ [effect.table]

theorem AllUnbroken.of_single {up down : TableCommand} {table : String}
    (carriedOut : AllUnbroken up.texts) (takenBack : AllUnbroken down.texts)
    (named : Unbroken table) : AllUnbroken (ClauseEffect.mk [up] down table).texts := by
  simp only [ClauseEffect.texts, List.flatMap_singleton, allUnbroken_append, allUnbroken_cons]
  exact ⟨⟨carriedOut, takenBack⟩, named, allUnbroken_nil⟩

namespace AlterOperation

section Effects

variable {operation : AlterOperation} {table : String} {tokens : List Token}
  {effect : ClauseEffect} (field : AllUnbroken operation.field.toList)
  (h : AllUnbroken (tokens.map Token.text)) (named : Unbroken table)

theorem allUnbroken_head? {tokens : List Token} (h : AllUnbroken (tokens.map Token.text)) :
    AllUnbroken (tokens.head?.bind Token.name?).toList := by
  intro name given
  obtain ⟨token, first, spelled⟩ := Option.bind_eq_some_iff.mp (Option.mem_toList.mp given)
  obtain ⟨others, rfl⟩ := List.head?_eq_some_iff.mp first
  cases token with
  | identifier text =>
      cases spelled
      exact (allUnbroken_cons.mp h).1
  | keyword | literal | punct => contradiction

theorem allUnbroken_target? (field : AllUnbroken operation.field.toList)
    (h : AllUnbroken (tokens.map Token.text)) :
    AllUnbroken (operation.target? tokens).toList := by
  unfold target?
  cases given : operation.field with
  | none => exact allUnbroken_head? h
  | some name => simpa [given] using field

theorem allUnbroken_referencesOf? {tokens : List Token}
    (h : AllUnbroken (tokens.map Token.text)) :
    AllUnbroken ((referencesOf? tokens).toList.flatMap References.texts) := by
  rw [allUnbroken_flatMap]
  intro target given
  obtain ⟨rest, after, rfl⟩ := Option.map_eq_some_iff.mp (Option.mem_toList.mp given)
  have behind := allUnbroken_of_suffix h (suffix_of_tokensAfter? after)
  cases rest with
  | nil => exact allUnbroken_cons.mpr ⟨by decide, allUnbroken_nil⟩
  | cons token rest =>
      rw [List.map_cons, allUnbroken_cons] at behind
      exact allUnbroken_cons.mpr ⟨behind.1, allUnbroken_parameterTexts behind.2⟩

theorem allUnbroken_dropTarget {name : Option String} {columns : List String}
    (named : AllUnbroken name.toList) (each : AllUnbroken columns) :
    AllUnbroken (dropTarget name columns).texts := by
  cases name with
  | none => exact each
  | some name => exact named

include field h named

theorem allUnbroken_columnEffect? {change : Bool}
    (made : operation.columnEffect? table tokens change = some effect) :
    AllUnbroken effect.texts := by
  unfold columnEffect? at made
  split at made
  next newName rest =>
    rw [List.map_cons, allUnbroken_cons] at h
    have column : Unbroken (operation.field.getD newName) := by
      cases given : operation.field with
      | none => exact h.1
      | some name => exact field name (by simp [given])
    have calls := allUnbroken_modifierCalls (ColumnClause.allUnbroken_scan h.2)
    dsimp only at made
    split at made
    · contradiction
    next declaration declared =>
      obtain ⟨typeName, -, found⟩ := Option.bind_eq_some_iff.mp declared
      have declares : AllUnbroken (TableCommand.column declaration
          (modifierCalls (ColumnClause.scan rest).options) change).texts := by
        simp only [TableCommand.texts, allUnbroken_cons, (Declaration.column_of? found).1]
        exact ⟨Declaration.unbroken_method_of? found, column, calls⟩
      split at made
      · cases made
        have renames : ∀ command ∈ (if newName = operation.field.getD newName then []
            else [TableCommand.renameColumn (operation.field.getD newName) newName]),
            AllUnbroken command.texts := by
          split
          · simp
          · simpa [TableCommand.texts] using ⟨column, h.1⟩
        have label : Unbroken AlterKind.changeColumn.label := AlterKind.unbroken_label _
        simp only [ClauseEffect.texts, List.flatMap_cons, allUnbroken_append, allUnbroken_cons,
          allUnbroken_flatMap]
        exact ⟨⟨⟨declares, renames⟩, allUnbroken_cons.mpr ⟨label, by simpa using column⟩⟩, named,
          allUnbroken_nil⟩
      · cases made
        exact .of_single declares (allUnbroken_cons.mpr ⟨column, allUnbroken_nil⟩) named
  next => contradiction

theorem allUnbroken_keyEffect? {kind : KeyKind} {method : NameMethod}
    (made : operation.keyEffect? table tokens kind method = some effect) :
    AllUnbroken effect.texts := by
  have name := allUnbroken_target? field h
  have columns := allUnbroken_parameterTexts h
  rw [(eq_of_keyEffect? made).2]
  exact .of_single (allUnbroken_append.mpr ⟨name, columns⟩)
    (allUnbroken_dropTarget name columns) named

theorem allUnbroken_constraintEffect?
    (made : operation.constraintEffect? table tokens = some effect) :
    AllUnbroken effect.texts := by
  unfold constraintEffect? at made
  split at made
  · contradiction
  next rest after =>
    have columns := allUnbroken_parameterTexts
      (allUnbroken_of_suffix h (suffix_of_tokensAfter? after))
    dsimp only at made
    split at made
    · contradiction
    · cases made
      have declared := allUnbroken_append.mpr
        ⟨allUnbroken_append.mpr ⟨field, columns⟩, allUnbroken_referencesOf? h⟩
      exact .of_single declared (allUnbroken_dropTarget field columns) named

theorem allUnbroken_dropEffect? {kind : AlterKind} {method : NameMethod}
    (made : operation.dropEffect? table tokens kind method = some effect) :
    AllUnbroken effect.texts := by
  obtain ⟨name, given, rfl⟩ := Option.map_eq_some_iff.mp made
  have target := allUnbroken_target? field h name (Option.mem_toList.mpr given)
  have label : Unbroken kind.label := kind.unbroken_label
  refine .of_single ?_ ?_ named
  · simpa [TableCommand.texts, DropTarget.texts] using target
  · simpa [TableCommand.texts] using ⟨label, target⟩

theorem allUnbroken_renameTableEffect?
    (made : operation.renameTableEffect? table tokens = some effect) :
    AllUnbroken effect.texts := by
  obtain ⟨name, given, rfl⟩ := Option.map_eq_some_iff.mp made
  have target := allUnbroken_target? field h name (Option.mem_toList.mpr given)
  refine .of_single ?_ ?_ target
  · simpa [TableCommand.texts] using target
  · simpa [TableCommand.texts] using named

theorem allUnbroken_renameEffect? {command : String → String → TableCommand}
    (shown : ∀ old new, (command old new).texts = [old, new])
    (made : operation.renameEffect? table tokens command = some effect) :
    AllUnbroken effect.texts := by
  unfold renameEffect? at made
  split at made
  · contradiction
  next old given =>
    split at made
    · contradiction
    next new found =>
      cases made
      obtain ⟨rest, after, first⟩ := Option.bind_eq_some_iff.mp found
      have behind := allUnbroken_of_suffix h (suffix_of_tokensAfter? after)
      have newName := allUnbroken_head? behind new (Option.mem_toList.mpr first)
      have oldName : Unbroken old := field old (by simp [given])
      refine .of_single ?_ ?_ named
      · simpa [shown] using ⟨oldName, newName⟩
      · simpa [shown] using ⟨newName, oldName⟩

end Effects

/-- What a clause contributes to a table has a line feed only if a text of the clause or the
    table's name has one. -/
theorem allUnbroken_effect? {operation : AlterOperation} {table : String} {effect : ClauseEffect}
    (h : AllUnbroken operation.texts) (named : Unbroken table)
    (made : operation.effect? table = some effect) : AllUnbroken effect.texts := by
  simp only [texts, allUnbroken_append] at h
  obtain ⟨⟨-, field⟩, all⟩ := h
  unfold effect? at made
  split at made
  · contradiction
  next kind tokens classified =>
    have left := allUnbroken_of_suffix all (suffix_of_classify? classified)
    cases kind with
    | addColumn | changeColumn => exact allUnbroken_columnEffect? field left named made
    | addIndex | addUnique | addFullText => exact allUnbroken_keyEffect? field left named made
    | addConstraint => exact allUnbroken_constraintEffect? field left named made
    | dropColumn | dropIndex | dropForeignKey =>
        exact allUnbroken_dropEffect? field left named made
    | renameTable => exact allUnbroken_renameTableEffect? field left named made
    | renameColumn | renameIndex =>
        exact allUnbroken_renameEffect? field left named (fun _ _ => rfl) made

end AlterOperation

namespace AlterTable

/-- One clause after the other, the name of the table stays without a line feed. -/
theorem allUnbroken_effects {table : String} {operations : List AlterOperation}
    (named : Unbroken table) (h : ∀ operation ∈ operations, AllUnbroken operation.texts) :
    ∀ effect ∈ effects table operations, AllUnbroken effect.texts := by
  induction operations generalizing table with
  | nil => exact List.forall_mem_nil _
  | cons operation operations ih =>
      rw [List.forall_mem_cons] at h
      rw [effects]
      split
      · exact ih named h.2
      next effect made =>
        have texts := AlterOperation.allUnbroken_effect? h.1 named made
        have table : Unbroken effect.table := by
          simp only [ClauseEffect.texts, allUnbroken_append, allUnbroken_cons] at texts
          exact texts.2.1
        rw [List.forall_mem_cons]
        exact ⟨texts, ih table h.2⟩

theorem allUnbroken_step {statement : AlterTable}
    (h : AllUnbroken (Statement.alter statement).texts) :
    ∀ command ∈ statement.step.up ++ statement.step.down, AllUnbroken command.texts := by
  simp only [Statement.texts, allUnbroken_cons, allUnbroken_flatMap] at h
  have each := allUnbroken_effects h.1 h.2
  simp only [ClauseEffect.texts, allUnbroken_append, allUnbroken_cons, allUnbroken_flatMap] at each
  have last : Unbroken (finalTable statement.table (effects statement.table statement.operations)) := by
    unfold finalTable
    cases given : (effects statement.table statement.operations).getLast? with
    | none => exact h.1
    | some effect => exact (each effect (List.mem_of_getLast? given)).2.1
  have up : AllUnbroken (((effects statement.table statement.operations).flatMap
      ClauseEffect.up).flatMap TableCommand.texts) := by
    rw [List.flatMap_assoc, allUnbroken_flatMap]
    exact fun effect member => allUnbroken_flatMap.mpr (each effect member).1.1
  have down : AllUnbroken (((effects statement.table statement.operations).map
      ClauseEffect.down).reverse.flatMap TableCommand.texts) := by
    simp only [allUnbroken_flatMap, List.mem_reverse, List.forall_mem_map]
    exact fun effect member => (each effect member).1.2
  simp only [step, List.singleton_append, List.forall_mem_cons, SchemaCommand.texts,
    allUnbroken_cons]
  exact ⟨⟨h.1, up⟩, ⟨last, down⟩, List.forall_mem_nil _⟩

end AlterTable

theorem Statement.allUnbroken_step {statement : Statement} (h : AllUnbroken statement.texts) :
    ∀ command ∈ statement.step.up ++ statement.step.down, AllUnbroken command.texts := by
  cases statement with
  | create statement =>
      simp only [texts, allUnbroken_cons, allUnbroken_flatMap] at h
      have body : AllUnbroken (statement.body.flatMap TableCommand.texts) := by
        rw [CreateTable.body, List.flatMap_assoc, allUnbroken_flatMap]
        intro field member
        exact allUnbroken_flatMap.mpr (field.allUnbroken_commands (h.2 field member) _)
      simp only [step, CreateTable.step, List.singleton_append, List.forall_mem_cons,
        SchemaCommand.texts, allUnbroken_cons]
      exact ⟨⟨h.1, body⟩, ⟨h.1, allUnbroken_nil⟩, List.forall_mem_nil _⟩
  | alter statement => exact AlterTable.allUnbroken_step h
  | drop statement =>
      have label : Unbroken "DROP TABLE" := by decide
      simp only [step, DropTable.step, List.forall_mem_append, List.forall_mem_map]
      refine ⟨fun table member => ?_, fun table member => ?_⟩
      · simpa [SchemaCommand.texts] using h table member
      · simpa [SchemaCommand.texts, label] using h table member

/-! ### Lines -/

/-- A line of code that is neither broken nor empty. -/
structure Line.Solid (l : Line) : Prop where
  unbroken : Unbroken l.text
  /-- Tabs make a line below the others visible. -/
  visible : l.depth = 0 → l.text ≠ ""

namespace SchemaCommand

theorem solid_blockLines {method table : String} {body : List TableCommand}
    (called : Unbroken method) (h : AllUnbroken (table :: body.flatMap TableCommand.texts)) :
    ∀ l ∈ blockLines method table body, l.Solid := by
  rw [allUnbroken_cons, allUnbroken_flatMap] at h
  have opening : Line.Solid
      ⟨0, "Schema::" ++ method ++ "(" ++ quote table ++ ", function (Blueprint $table) \x7b"⟩ := by
    refine ⟨?_, fun _ => by simp⟩
    rw [unbroken_append, unbroken_append, unbroken_append, unbroken_append, and_assoc, and_assoc,
      and_assoc]
    exact ⟨by decide, called, by decide, unbroken_quote h.1, by decide +kernel⟩
  have inside : ∀ l ∈ Line.deeper 1 (body.flatMap TableCommand.lines), l.Solid := by
    simp only [Line.deeper, List.forall_mem_map, List.forall_mem_flatMap]
    intro command member l listed
    exact ⟨TableCommand.unbroken_lines (h.2 command member) l listed, fun flush => by simp at flush⟩
  rw [blockLines, List.forall_mem_append, List.forall_mem_cons, List.forall_mem_singleton]
  exact ⟨⟨opening, inside⟩, by decide, fun _ => by decide⟩

theorem solid_lines {command : SchemaCommand} (h : AllUnbroken command.texts) :
    ∀ l ∈ command.lines, l.Solid := by
  cases command with
  | create table body => exact solid_blockLines (by decide) h
  | alter table body => exact solid_blockLines (by decide) h
  | dropIfExists table =>
      rw [lines, List.forall_mem_singleton]
      refine ⟨?_, fun _ => by simp⟩
      rw [unbroken_append, unbroken_append, and_assoc]
      exact ⟨by decide +kernel, unbroken_quote (h table (List.mem_singleton_self _)), by decide⟩
  | remark operation target =>
      simp only [texts, allUnbroken_cons] at h
      rw [lines, List.forall_mem_singleton]
      exact ⟨unbroken_remarkCode h.1 h.2.1, fun _ => remarkCode_ne_empty operation target⟩

end SchemaCommand

theorem Statement.solid_lines {statement : Statement} (h : AllUnbroken statement.texts) :
    (∀ l ∈ statement.step.up.flatMap SchemaCommand.lines, l.Solid) ∧
      ∀ l ∈ statement.step.down.flatMap SchemaCommand.lines, l.Solid := by
  have each := Statement.allUnbroken_step h
  rw [List.forall_mem_append] at each
  rw [List.forall_mem_flatMap, List.forall_mem_flatMap]
  exact ⟨fun command member => command.solid_lines (each.1 command member),
    fun command member => command.solid_lines (each.2 command member)⟩

end TableShift
