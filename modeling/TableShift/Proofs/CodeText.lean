import TableShift.Proofs.CodeReading
import TableShift.Proofs.Remarks

/-! # The code of commands read back

The code of a command is read back as the calls that the command is made of. Names and texts
are quoted, so that they stay inside their literals whatever they hold. Only the argument of a
default is written as it stands: the code is read back in full exactly if every one of them
can stand in the parentheses of a call.
-/

namespace TableShift

/-! ## The calls of commands -/

def ModifierCall.call (call : ModifierCall) : MethodCall :=
  ⟨call.modifier.method, call.argument⟩

def Declaration.call (declaration : Declaration) : MethodCall where
  method := declaration.method.method
  arguments :=
    match declaration.length with
    | some n => quote declaration.column ++ ", " ++ toString n.toNat
    | none => quote declaration.column

/-- The call that declares a key. -/
def keyCall (kind : KeyKind) (columns : List String) (name : Option String) : MethodCall :=
  ⟨kind.method, quoteNames columns ++ ", " ++ (name.map quote).getD "null"⟩

def ReferenceOption.call (option : ReferenceOption) : MethodCall :=
  ⟨option.event.method, quote option.action.words⟩

/-- The calls that tell the columns and the table that a foreign key refers to. -/
def References.targetCalls (target : References) : List MethodCall :=
  (if target.columns.isEmpty then [] else [⟨"references", quoteNames target.columns⟩]) ++
    (if target.table.isEmpty then [] else [⟨"on", quote target.table⟩])

/-- The calls that tell what a foreign key refers to. -/
def References.calls (target : References) : List MethodCall :=
  target.targetCalls ++ target.options.map ReferenceOption.call

/-- The call that makes a declaration a change. -/
def changeCalls (change : Bool) : List MethodCall :=
  if change then [⟨"change", ""⟩] else []

/-- The statement that a command is in code; a remark is none. -/
def TableCommand.statements : TableCommand → List (List MethodCall)
  | column declaration modifiers change =>
    [declaration.call :: (modifiers.map ModifierCall.call ++ changeCalls change)]
  | key kind columns name => [[keyCall kind columns name]]
  | foreign columns name target =>
    [keyCall .foreign columns name :: (target.map References.calls).getD []]
  | drop method (.name name) => [[⟨method.method, quoteNames [name]⟩]]
  | drop method (.columns columns) => [[⟨method.method, quoteList columns⟩]]
  | rename table => [[⟨"rename", quote table⟩]]
  | renameColumn old new => [[⟨"renameColumn", quote old ++ ", " ++ quote new⟩]]
  | renameIndex old new => [[⟨"renameIndex", quote old ++ ", " ++ quote new⟩]]
  | remark _ _ => []

/-- The call on the schema that a command is in code; a remark is none. -/
def SchemaCommand.calls : SchemaCommand → List SchemaCall
  | create table body => [.block "create" table (body.flatMap TableCommand.statements)]
  | alter table body => [.block "table" table (body.flatMap TableCommand.statements)]
  | dropIfExists table => [.plain "dropIfExists" table]
  | remark _ _ => []

/-- The arguments of the defaults of a command. -/
def TableCommand.defaults : TableCommand → List String
  | column _ modifiers _ =>
    (modifiers.filter (·.modifier.argument = .default)).map ModifierCall.argument
  | _ => []

def SchemaCommand.defaults : SchemaCommand → List String
  | create _ body | alter _ body => body.flatMap TableCommand.defaults
  | _ => []

/-- A command that statements lead to, remarks aside: a column is declared by a method of the
    table of types and has the modifiers of some options. -/
def TableCommand.IsStatement : TableCommand → Prop
  | column declaration modifiers _ =>
    declaration.method ∈ columnMethods ∧ ∃ options, modifiers = modifierCalls options
  | drop method _ => method ≠ .references
  | remark _ _ => False
  | _ => True

def SchemaCommand.IsStatement : SchemaCommand → Prop
  | create _ body | alter _ body => ∀ command ∈ body, command.IsStatement
  | dropIfExists _ => True
  | remark _ _ => False

/-! ## Arguments of literals -/

/-- The characters that count for more than themselves in arguments. -/
def argumentMarks : List Char :=
  ['\'', '"', '(', ')', '[', ']', '\x7b', '\x7d', ';', '#', '\x60', '/', '<', '?']

/-- A text between literals that opens and closes nothing beyond its own ends. -/
def Closed (text : String) : Prop :=
  ∀ closers rest, ArgumentPlace.endsAfter (.between closers) (text.toList ++ rest) =
    ArgumentPlace.endsAfter (.between closers) rest

namespace ArgumentPlace

variable (closers cs : List Char)

theorem endsAfter_plain {c : Char} (plain : c ∉ argumentMarks) :
    (between closers).endsAfter (c :: cs) = (between closers).endsAfter cs := by
  simp only [argumentMarks, List.mem_cons, List.not_mem_nil, or_false, not_or] at plain
  have stays : breaksOff c cs = false := by simp [breaksOff, plain]
  have unmatched : closerOf? c = none := by
    unfold closerOf?
    split <;> simp_all
  rw [endsAfter]
  simp [next?, plain, stays, unmatched]

theorem endsAfter_escaped (text : List Char) :
    (literal closers '\'' false).endsAfter (text.flatMap escapeQuoted ++ '\'' :: cs) =
      (between closers).endsAfter cs := by
  induction text with
  | nil => simp [endsAfter, next?]
  | cons c text ih =>
      rcases escapeQuoted_cases c with ⟨rfl, written⟩ | ⟨rfl, written⟩ | ⟨slash, tick, written⟩
      · simpa [written, endsAfter, next?] using ih
      · simpa [written, endsAfter, next?] using ih
      · simpa [written, endsAfter, next?, slash, tick] using ih

end ArgumentPlace

theorem Closed.append {a b : String} (ha : Closed a) (hb : Closed b) : Closed (a ++ b) := by
  intro closers rest
  rw [String.toList_append, List.append_assoc, ha, hb]

theorem Closed.isArguments {text : String} (h : Closed text) : IsArguments text := by
  have whole := h [] []
  rw [List.append_nil] at whole
  rw [IsArguments, whole]
  rfl

theorem closed_plain {text : String} (plain : ∀ c ∈ text.toList, c ∉ argumentMarks) :
    Closed text := by
  intro closers rest
  generalize text.toList = cs at plain
  induction cs with
  | nil => rfl
  | cons c cs ih =>
      rw [List.forall_mem_cons] at plain
      rw [List.cons_append, ArgumentPlace.endsAfter_plain closers _ plain.1, ih plain.2]

theorem closed_comma : Closed ", " :=
  closed_plain (by simp [argumentMarks])

theorem closed_quote (text : String) : Closed (quote text) := by
  intro closers rest
  rw [toList_quote_append, ArgumentPlace.endsAfter]
  simpa [ArgumentPlace.next?] using ArgumentPlace.endsAfter_escaped closers rest text.toList

theorem Closed.bracketed {text : String} (h : Closed text) : Closed ("[" ++ text ++ "]") := by
  intro closers rest
  have chars : ("[" ++ text ++ "]").toList ++ rest = '[' :: (text.toList ++ ']' :: rest) := by
    simp
  have opens : ArgumentPlace.endsAfter (.between closers) ('[' :: (text.toList ++ ']' :: rest)) =
      ArgumentPlace.endsAfter (.between (']' :: closers)) (text.toList ++ ']' :: rest) := by
    simp [ArgumentPlace.endsAfter, ArgumentPlace.next?, breaksOff, closerOf?]
  rw [chars, opens, h]
  simp [ArgumentPlace.endsAfter, ArgumentPlace.next?, breaksOff]

theorem closed_joinWith {separator : String} (h : Closed separator) {texts : List String}
    (each : ∀ text ∈ texts, Closed text) : Closed (joinWith separator texts) := by
  induction texts with
  | nil => exact closed_plain (by simp [joinWith])
  | cons text texts ih =>
      rw [List.forall_mem_cons] at each
      cases texts with
      | nil => exact each.1
      | cons next texts => exact (each.1.append h).append (ih each.2)

theorem closed_quoteList (names : List String) : Closed (quoteList names) :=
  (closed_joinWith closed_comma (by simp [closed_quote])).bracketed

theorem closed_quoteNames (names : List String) : Closed (quoteNames names) := by
  unfold quoteNames
  split
  · exact closed_quote ""
  · exact closed_quote _
  · exact closed_quoteList _

theorem closed_toString (n : Nat) : Closed (toString n) := by
  have undigited : argumentMarks.all (!·.isDigit) = true := by decide
  apply closed_plain
  rw [Nat.toString_eq_ofList_toDigits, String.toList_ofList]
  intro c digit mark
  have numeral := Nat.isDigit_of_mem_toDigits (by decide) (by decide) digit
  have other := List.all_eq_true.mp undigited c mark
  simp [numeral] at other

theorem closed_pair (a b : String) : Closed (quote a ++ ", " ++ quote b) :=
  ((closed_quote a).append closed_comma).append (closed_quote b)

/-! ## Legible calls -/

theorem Closed.legible {arguments : String} (h : Closed arguments) {method : String}
    (word : method.toList.all Char.isAlphanum = true) :
    (MethodCall.mk method arguments).Legible :=
  ⟨word, h.isArguments⟩

theorem KeyKind.word_method (kind : KeyKind) :
    kind.method.toList.all Char.isAlphanum = true := by
  cases kind <;> decide

theorem NameMethod.word_method (method : NameMethod) :
    method.method.toList.all Char.isAlphanum = true := by
  cases method <;> decide

theorem legible_keyCall (kind : KeyKind) (columns : List String) (name : Option String) :
    (keyCall kind columns name).Legible := by
  have last : Closed ((name.map quote).getD "null") := by
    cases name with
    | none => exact closed_plain (by simp [argumentMarks])
    | some name => exact closed_quote name
  exact (((closed_quoteNames columns).append closed_comma).append last).legible
    kind.word_method

theorem Declaration.legible_call {declaration : Declaration}
    (listed : declaration.method ∈ columnMethods) : declaration.call.Legible where
  word := by
    have words : ∀ m ∈ columnMethods, m.method.toList.all Char.isAlphanum = true := by decide
    exact words _ listed
  arguments := by
    unfold call
    cases declaration.length with
    | none => exact (closed_quote _).isArguments
    | some n =>
        exact (((closed_quote _).append closed_comma).append
          (closed_toString _)).isArguments

theorem ReferenceOption.legible_call (option : ReferenceOption) : option.call.Legible := by
  refine (closed_quote _).legible ?_
  cases option.event <;> decide

theorem References.legible_calls (target : References) : ∀ call ∈ target.calls, call.Legible := by
  simp only [calls, targetCalls, List.forall_mem_append, List.forall_mem_map]
  refine ⟨⟨?_, ?_⟩, fun option _ => option.legible_call⟩
  · split
    · simp
    · exact List.forall_mem_singleton.mpr ((closed_quoteNames _).legible (by decide))
  · split
    · simp
    · exact List.forall_mem_singleton.mpr ((closed_quote _).legible (by decide))

/-- Every modifier of a column is of the tables, and has arguments unless it is a default. -/
theorem ModifierCall.of_mem_modifierCalls {options : List ColumnOption} {call : ModifierCall}
    (made : call ∈ modifierCalls options) :
    call.modifier ∈ presentModifiers ++ absentModifiers ∧
      (call.modifier.argument = .default ∨ Closed call.argument) := by
  have written {m : Modifier} {value : Option Value} (made : m.call? value = some call) :
      call.modifier = m ∧ (m.argument = .default ∨ Closed call.argument) := by
    unfold Modifier.call? at made
    split at made
    · cases made
      exact ⟨rfl, .inr (closed_plain (by simp))⟩
    · cases made
      exact ⟨rfl, .inr (closed_quote _)⟩
    · rename_i default
      cases made
      exact ⟨rfl, .inl default⟩
    · simp at made
  simp only [modifierCalls, List.mem_append, List.mem_filterMap, List.mem_filter,
    Option.bind_eq_some_iff] at made
  rcases made with ⟨m, listed, option, _, made⟩ | ⟨m, ⟨listed, -⟩, made⟩
  · obtain ⟨rfl, argument⟩ := written made
    exact ⟨List.mem_append_left _ listed, argument⟩
  · obtain ⟨rfl, argument⟩ := written made
    exact ⟨List.mem_append_right _ listed, argument⟩

theorem TableCommand.legible_statements {command : TableCommand} (h : command.IsStatement)
    (defaults : ∀ text ∈ command.defaults, IsArguments text) :
    ∀ statement ∈ command.statements, ∀ call ∈ statement, call.Legible := by
  cases command with
  | column declaration modifiers change =>
      obtain ⟨listed, options, rfl⟩ := h
      have words : ∀ m ∈ presentModifiers ++ absentModifiers,
          m.method.toList.all Char.isAlphanum = true := by decide
      simp only [statements, List.forall_mem_singleton, List.forall_mem_cons,
        List.forall_mem_append, List.forall_mem_map]
      refine ⟨Declaration.legible_call listed, fun call made => ?_, ?_⟩
      · obtain ⟨known, argument⟩ := ModifierCall.of_mem_modifierCalls made
        refine ⟨words _ known, ?_⟩
        rcases argument with default | closed
        · exact defaults _ (List.mem_map_of_mem (List.mem_filter.mpr ⟨made, by simp [default]⟩))
        · exact closed.isArguments
      · unfold changeCalls
        split
        · exact List.forall_mem_singleton.mpr ((closed_plain (by simp)).legible (by decide))
        · simp
  | key kind columns name => simpa [statements] using legible_keyCall kind columns name
  | «foreign» columns name target =>
      simp only [statements, List.forall_mem_singleton, List.forall_mem_cons]
      refine ⟨legible_keyCall _ columns name, ?_⟩
      cases target with
      | none => simp
      | some target => exact target.legible_calls
  | drop method target =>
      cases target with
      | name name =>
          simpa [statements] using (closed_quoteNames [name]).legible method.word_method
      | columns columns =>
          simpa [statements] using (closed_quoteList columns).legible method.word_method
  | rename table =>
      have word : "rename".toList.all Char.isAlphanum = true := by decide
      simpa [statements] using (closed_quote table).legible word
  | renameColumn old new =>
      have word : "renameColumn".toList.all Char.isAlphanum = true := by decide
      simpa [statements] using (closed_pair old new).legible word
  | renameIndex old new =>
      have word : "renameIndex".toList.all Char.isAlphanum = true := by decide
      simpa [statements] using (closed_pair old new).legible word
  | remark => exact h.elim

/-! ## Lines of code -/

/-- The characters of lines in a block at a level, each on a line of its own. -/
def Line.chars (level : Nat) (ls : List Line) : List Char :=
  ls.flatMap fun l => '\n' :: (l.code level).toList

namespace Line

theorem chars_cons (level : Nat) (l : Line) (ls : List Line) :
    chars level (l :: ls) =
      '\n' :: (tabs (level + l.depth)).toList ++ (l.text.toList ++ chars level ls) := by
  simp [chars, code]

theorem chars_append (level : Nat) (first second : List Line) :
    chars level (first ++ second) = chars level first ++ chars level second :=
  List.flatMap_append

theorem chars_pushLast (level : Nat) (fragment : String) (l : Line) (ls : List Line) :
    chars level (pushLast fragment (l :: ls)) = chars level (l :: ls) ++ fragment.toList := by
  induction ls generalizing l with
  | nil => simp [pushLast, chars, code]
  | cons next ls ih => rw [pushLast, chars_cons, ih, chars_cons level l] <;> simp

theorem chars_deeper (level n : Nat) (ls : List Line) :
    chars level (deeper n ls) = chars (level + n) ls := by
  simp [chars, deeper, code, List.flatMap_map, Nat.add_assoc, Nat.add_comm n]

theorem blank_lineStart (level : Nat) : ∀ c ∈ '\n' :: (tabs level).toList, c.isWhitespace = true := by
  simp +decide [tabs]

end Line

namespace Code

theorem reads_lines (level : Nat) {calls : List MethodCall} (h : ∀ call ∈ calls, call.Legible) :
    Reads calls? (Line.chars level (calls.map fun call => ⟨1, call.code⟩)) calls := by
  have each : ∀ call ∈ calls,
      Reads calls? ('\n' :: (tabs (level + 1)).toList ++ call.code.toList) [call] := by
    intro call member
    exact (reads_calls?_blanks (Line.blank_lineStart _)).append (reads_call (h call member))
  have whole := Reads.flatMap each
  simpa [Line.chars, Line.code, List.flatMap_map] using whole

/-- The lines of a statement: a call on the table builder, what is chained to it line by line,
    and what is chained to the last line. -/
theorem reads_chain (level : Nat) {head : MethodCall} (h : head.Legible) (ls : List Line)
    (fragment : String) {calls : List MethodCall}
    (later : Reads calls? (Line.chars level ls ++ fragment.toList) calls) :
    Reads statements?
      (Line.chars level (Line.pushLast (fragment ++ ";") (⟨0, "$table" ++ head.code⟩ :: ls)))
      [head :: calls] := by
  have chars : Line.chars level (Line.pushLast (fragment ++ ";") (⟨0, "$table" ++ head.code⟩ :: ls)) =
      '\n' :: (tabs (level + 0)).toList ++ ("$table".toList ++
        ((head.code.toList ++ (Line.chars level ls ++ fragment.toList)) ++ [';'])) := by
    simp [Line.chars_pushLast, Line.chars_cons]
  rw [chars]
  exact (reads_statements?_blanks (Line.blank_lineStart _)).append
    (reads_statement ((reads_call h).append later))

theorem reads_chain_lines (level : Nat) {head : MethodCall} (h : head.Legible) {ls : List Line}
    {calls : List MethodCall} (later : Reads calls? (Line.chars level ls) calls) :
    Reads statements?
      (Line.chars level (Line.pushLast ";" (⟨0, "$table" ++ head.code⟩ :: ls)))
      [head :: calls] := by
  have bare : Reads calls? (Line.chars level ls ++ "".toList) calls := by simpa using later
  simpa using reads_chain level h ls "" bare

theorem reads_single (level : Nat) {call : MethodCall} (h : call.Legible) {text : String}
    (code : text = "$table" ++ call.code ++ ";") :
    Reads statements? (Line.chars level [⟨0, text⟩]) [[call]] := by
  have alone : Reads calls? (Line.chars level []) [] := .nil
  rw [code]
  exact reads_chain_lines level h alone

end Code

theorem Declaration.code_eq (declaration : Declaration) :
    declaration.code = "$table" ++ declaration.call.code := by
  simp only [code, MethodCall.code, call, ← String.append_assoc]
  rfl

theorem keyCode_eq_call (kind : KeyKind) (columns : List String) (name : Option String) :
    keyCode kind columns name = "$table" ++ (keyCall kind columns name).code := by
  simp only [keyCode_eq, MethodCall.code, keyCall, ← String.append_assoc]
  rfl

theorem NameMethod.chain_eq (method : NameMethod) (names : List String) :
    method.chain names = MethodCall.code ⟨method.method, quoteNames names⟩ := rfl

theorem NameMethod.onColumns_eq (method : NameMethod) (columns : List String) :
    method.onColumns columns = "$table" ++ MethodCall.code ⟨method.method, quoteList columns⟩ := by
  simp only [onColumns, MethodCall.code, ← String.append_assoc]
  rfl

namespace Code

theorem reads_foreignLines (level : Nat) (columns : List String) (name : Option String)
    (target : Option References) :
    Reads statements? (Line.chars level (foreignLines columns name target))
      [keyCall .foreign columns name :: (target.map References.calls).getD []] := by
  have declared := legible_keyCall .foreign columns name
  unfold foreignLines
  simp only [keyCode_eq_call]
  cases target with
  | none => exact reads_chain_lines level declared .nil
  | some target =>
      have legible := target.legible_calls
      simp only [References.calls, List.forall_mem_append] at legible
      have below : (if target.columns.isEmpty then ([] : List Line)
          else [⟨1, NameMethod.references.chain target.columns⟩]) ++
            (if target.table.isEmpty then ([] : List Line) else [⟨1, onTableCode target.table⟩]) =
          target.targetCalls.map fun call => ⟨1, call.code⟩ := by
        unfold References.targetCalls
        cases target.columns.isEmpty <;> cases target.table.isEmpty <;> rfl
      have actions : Reads calls? (String.join (target.options.map ReferenceOption.code)).toList
          (target.options.map ReferenceOption.call) := by
        have each := Reads.flatMap fun option (_ : option ∈ target.options) =>
          reads_call option.legible_call
        rw [String.toList_join, List.flatMap_map, ← List.flatMap_pure_eq_map]
        exact each
      simp only
      rw [List.cons_append, below]
      exact reads_chain level declared _ _ ((reads_lines level legible.1).append actions)

theorem reads_command {command : TableCommand} (h : command.IsStatement)
    (defaults : ∀ text ∈ command.defaults, IsArguments text) (level : Nat) :
    Reads statements? (Line.chars level command.lines) command.statements := by
  have legible := TableCommand.legible_statements h defaults
  cases command with
  | column declaration modifiers change =>
      simp only [TableCommand.statements, List.forall_mem_singleton, List.forall_mem_cons] at legible
      have below : (modifiers.map ModifierCall.code ++ if change then ["->change()"] else []).map
            (fun text => (⟨1, text⟩ : Line)) =
          (modifiers.map ModifierCall.call ++ changeCalls change).map
            fun call => ⟨1, call.code⟩ := by
        unfold changeCalls
        rw [List.map_append, List.map_append, List.map_map, List.map_map]
        cases change <;> rfl
      simp only [TableCommand.lines, below, Declaration.code_eq]
      exact reads_chain_lines level legible.1 (reads_lines level legible.2)
  | key kind columns name =>
      refine reads_single level (legible_keyCall kind columns name) ?_
      rw [keyCode_eq_call]
  | «foreign» columns name target => exact reads_foreignLines level columns name target
  | drop method target =>
      cases target with
      | name name =>
          refine reads_single level ((closed_quoteNames [name]).legible method.word_method) ?_
          rw [NameMethod.onName, NameMethod.chain_eq]
      | columns columns =>
          refine reads_single level ((closed_quoteList columns).legible method.word_method) ?_
          rw [NameMethod.onColumns_eq]
  | rename table | renameColumn old new | renameIndex old new =>
      simp only [TableCommand.statements, List.forall_mem_singleton] at legible
      refine reads_single level legible (String.toList_injective ?_)
      simp [MethodCall.code]
  | remark => exact h.elim

theorem reads_body {body : List TableCommand} (h : ∀ command ∈ body, command.IsStatement)
    (defaults : ∀ text ∈ body.flatMap TableCommand.defaults, IsArguments text) (level : Nat) :
    Reads statements? (Line.chars level (body.flatMap TableCommand.lines))
      (body.flatMap TableCommand.statements) := by
  have each : ∀ command ∈ body,
      Reads statements? (Line.chars level command.lines) command.statements := fun command member =>
    reads_command (h command member)
      (fun text given => defaults text (List.mem_flatMap_of_mem member given)) level
  have whole := Reads.flatMap each
  rwa [Line.chars, List.flatMap_assoc]

theorem reads_blockLines {method : String} (word : method.toList.all Char.isAlphanum = true)
    (table : String) {body : List TableCommand} (h : ∀ command ∈ body, command.IsStatement)
    (defaults : ∀ text ∈ body.flatMap TableCommand.defaults, IsArguments text) (level : Nat) :
    Reads schemaCalls? (Line.chars level (SchemaCommand.blockLines method table body))
      [.block method table (body.flatMap TableCommand.statements)] := by
  have inside := (reads_body h defaults (level + 1)).append
    (reads_statements?_blanks (Line.blank_lineStart (level + 0)))
  rw [List.append_nil] at inside
  have chars : Line.chars level (SchemaCommand.blockLines method table body) =
      '\n' :: (tabs (level + 0)).toList ++ (("Schema::" ++ method ++ "(" ++ quote table ++
        ", function (Blueprint $table) \x7b").toList ++
          (Line.chars (level + 1) (body.flatMap TableCommand.lines) ++
            ('\n' :: (tabs (level + 0)).toList) ++ "\x7d);".toList)) := by
    have closing : Line.chars level [⟨0, "\x7d);"⟩] =
        '\n' :: (tabs (level + 0)).toList ++ "\x7d);".toList := by
      simp [Line.chars, Line.code]
    rw [SchemaCommand.blockLines, List.cons_append, Line.chars_cons, Line.chars_append,
      Line.chars_deeper, closing]
    simp only [List.append_assoc]
  rw [chars]
  exact (reads_schemaCalls?_blanks (Line.blank_lineStart _)).append (reads_block word table inside)

theorem reads_schemaCommand {command : SchemaCommand} (h : command.IsStatement)
    (defaults : ∀ text ∈ command.defaults, IsArguments text) (level : Nat) :
    Reads schemaCalls? (Line.chars level command.lines) command.calls := by
  cases command with
  | create table body => exact reads_blockLines (by decide) table h defaults level
  | alter table body => exact reads_blockLines (by decide) table h defaults level
  | dropIfExists table =>
      have word : "dropIfExists".toList.all Char.isAlphanum = true := by decide
      have line := (reads_schemaCalls?_blanks (Line.blank_lineStart (level + 0))).append
        (reads_plain word table)
      have chars : Line.chars level (SchemaCommand.dropIfExists table).lines =
          '\n' :: (tabs (level + 0)).toList ++
            ("Schema::" ++ "dropIfExists" ++ "(" ++ quote table ++ ");").toList := by
        simp [SchemaCommand.lines, Line.chars, Line.code]
      rwa [chars]
  | remark => exact h.elim

end Code

/-- The code of commands is their lines, without what stands in front of the first. -/
theorem SchemaCommand.exists_chars_code (indent : Nat) {commands : List SchemaCommand}
    (h : commands ≠ []) :
    ∃ level, Line.chars indent (commands.flatMap lines) =
      '\n' :: (tabs level).toList ++ (code indent commands).toList := by
  obtain ⟨command, later, rfl⟩ := List.exists_cons_of_ne_nil h
  obtain ⟨first, ls, written, visible⟩ := command.exists_first_line
  have below (text : String) (ls : List Line) :
      ("\n".intercalate (text :: ls.map (Line.code indent))).toList =
        text.toList ++ Line.chars indent ls := by
    induction ls generalizing text with
    | nil => simp [Line.chars]
    | cons l ls ih =>
        rw [List.map_cons, String.intercalate_cons_cons, String.toList_append, ih]
        simp [Line.chars]
  have all : (command :: later).flatMap lines = first :: (ls ++ later.flatMap lines) := by
    rw [List.flatMap_cons, written, List.cons_append]
  refine ⟨indent + first.depth, ?_⟩
  rw [code_eq_intercalate indent all visible, all, below, Line.chars_cons]

namespace Code

theorem reads_code {commands : List SchemaCommand} (h : ∀ command ∈ commands, command.IsStatement)
    (defaults : ∀ text ∈ commands.flatMap SchemaCommand.defaults, IsArguments text)
    (indent : Nat) :
    Reads schemaCalls? (SchemaCommand.code indent commands).toList
      (commands.flatMap SchemaCommand.calls) := by
  by_cases visible : commands = []
  · subst visible
    exact .nil
  · obtain ⟨level, chars⟩ := SchemaCommand.exists_chars_code indent visible
    have each : ∀ command ∈ commands,
        Reads schemaCalls? (Line.chars indent command.lines) command.calls :=
      fun command member => reads_schemaCommand (h command member)
        (fun text given => defaults text (List.mem_flatMap_of_mem member given)) indent
    have whole := Reads.flatMap each
    rw [show commands.flatMap (fun command => Line.chars indent command.lines) =
      Line.chars indent (commands.flatMap SchemaCommand.lines) from List.flatMap_assoc.symm,
      chars] at whole
    exact whole.of_blanks (reads_schemaCalls?_blanks (Line.blank_lineStart _))

theorem reads_intercalate {α : Type} {separator : String}
    (blank : ∀ c ∈ separator.toList, c.isWhitespace = true) (block : α → String)
    (calls : α → List SchemaCall) {as : List α}
    (each : ∀ a ∈ as, Reads schemaCalls? (block a).toList (calls a)) :
    Reads schemaCalls? (separator.intercalate (as.map block)).toList (as.flatMap calls) := by
  induction as with
  | nil => exact .nil
  | cons a as ih =>
      rw [List.forall_mem_cons] at each
      cases as with
      | nil => simpa using each.1
      | cons b as =>
          have later := (reads_schemaCalls?_blanks blank).append (ih each.2)
          simpa using each.1.append later

end Code

theorem TableCommand.isArguments_defaults {command : TableCommand}
    (h : ∀ statement ∈ command.statements, ∀ call ∈ statement, IsArguments call.arguments) :
    ∀ text ∈ command.defaults, IsArguments text := by
  cases command with
  | column declaration modifiers change =>
      simp only [statements, List.forall_mem_singleton, List.forall_mem_cons,
        List.forall_mem_append, List.forall_mem_map] at h
      intro text default
      obtain ⟨call, kept, rfl⟩ := List.mem_map.mp default
      exact h.2.1 call (List.mem_of_mem_filter kept)
  | key | «foreign» | drop | rename | renameColumn | renameIndex | remark => simp [defaults]

theorem SchemaCommand.isArguments_defaults {command : SchemaCommand}
    (h : ∀ call ∈ command.calls, ∀ chain ∈ call.body, ∀ call ∈ chain, IsArguments call.arguments) :
    ∀ text ∈ command.defaults, IsArguments text := by
  cases command with
  | create table body | alter table body =>
      intro text default
      obtain ⟨command, member, given⟩ := List.mem_flatMap.mp default
      refine TableCommand.isArguments_defaults (fun chain listed => ?_) text given
      exact h _ (List.mem_singleton_self _) chain (List.mem_flatMap_of_mem member listed)
  | dropIfExists | remark => simp [defaults]

end TableShift
