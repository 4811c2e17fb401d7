import TableShift.Proofs.CodeText
import TableShift.Proofs.Database

/-! # What code does

The statements of generated code are acts on a database. What a statement does is told by the
method of its first call and the literals in the arguments of that call; of what is chained to
it, only a declaration's `change` matters. A statement that no act is about is not understood,
and neither is code with such a statement in it.
-/

namespace TableShift

namespace Code

/-! ## Names in arguments -/

/-- The name that arguments begin with, and what follows it. -/
def name? : List Char → Option (String × List Char)
  | '\'' :: cs => (literalBody? cs).map (Prod.map String.ofList id)
  | _ => none

/-- The names of a list behind its first quote, and what follows its bracket. -/
def listBody? (cs : List Char) : Option (List String × List Char) :=
  match _read : literalBody? cs with
  | some (text, ']' :: rest) => some ([.ofList text], rest)
  | some (text, ',' :: ' ' :: '\'' :: rest) =>
    (listBody? rest).map (Prod.map (.ofList text :: ·) id)
  | _ => none
  termination_by cs.length
  decreasing_by
    have shorter := length_lt_of_literalBody? _read
    simp only [List.length_cons] at shorter
    omega

/-- The name or the list of names that arguments begin with, and what follows. -/
def names? : List Char → Option (List String × List Char)
  | '[' :: ']' :: rest => some ([], rest)
  | '[' :: '\'' :: rest => listBody? rest
  | cs => (name? cs).map (Prod.map (fun name => [name]) id)

/-- Two names that arguments are made of. -/
def pair? (cs : List Char) : Option (String × String) :=
  match name? cs with
  | some (first, ',' :: ' ' :: rest) =>
    match name? rest with
    | some (second, []) => some (first, second)
    | _ => none
  | _ => none

/-- The key that arguments declare: its columns, and its name or `null`. -/
def declaredKey? (kind : KeyKind) (cs : List Char) : Option KeyId :=
  match names? cs with
  | some (columns, ',' :: ' ' :: rest) =>
    if rest = "null".toList then some (.unnamed kind columns)
    else
      match name? rest with
      | some (name, []) => some (.named name)
      | _ => none
  | _ => none

/-- The key that arguments take away: its name, or the list of its columns. -/
def droppedKey? (kind : KeyKind) (cs : List Char) : Option KeyId :=
  match name? cs, names? cs with
  | some (name, []), _ => some (.named name)
  | none, some (columns, []) => some (.unnamed kind columns)
  | _, _ => none

/-! ## Statements -/

/-- What a method of the table builder is for. -/
inductive MethodUse where
  | column
  | key (kind : KeyKind)
  | dropColumn
  | dropKey (kind : KeyKind)
  | rename
  | renameColumn
  | renameIndex
  deriving DecidableEq

def methodUse? (method : String) : Option MethodUse :=
  if columnMethods.any (·.method == method) then some .column
  else
    match method with
    | "primary" => some (.key .primary)
    | "index" => some (.key .index)
    | "unique" => some (.key .unique)
    | "fullText" => some (.key .fullText)
    | "foreign" => some (.key .foreign)
    | "dropColumn" => some .dropColumn
    | "dropIndex" => some (.dropKey .index)
    | "dropUnique" => some (.dropKey .unique)
    | "dropFullText" => some (.dropKey .fullText)
    | "dropForeign" => some (.dropKey .foreign)
    | "rename" => some .rename
    | "renameColumn" => some .renameColumn
    | "renameIndex" => some .renameIndex
    | _ => none

/-- The act of a statement; none if it is not understood. -/
def act? : List MethodCall → Option TableAct
  | [] => none
  | head :: later =>
    let arguments := head.arguments.toList
    match methodUse? head.method with
    | none => none
    | some .column =>
      match name? arguments with
      | some (column, []) | some (column, ',' :: _) =>
        some (if later.any (·.method == "change") then .changeColumn column else .addColumn column)
      | _ => none
    | some (.key kind) => (declaredKey? kind arguments).map (.addKey kind)
    | some .dropColumn =>
      match names? arguments with
      | some (columns, []) => some (.dropColumns columns)
      | _ => none
    | some (.dropKey kind) => (droppedKey? kind arguments).map (.dropKey kind)
    | some .rename =>
      match name? arguments with
      | some (table, []) => some (.rename table)
      | _ => none
    | some .renameColumn => (pair? arguments).map fun (old, new) => .renameColumn old new
    | some .renameIndex => (pair? arguments).map fun (old, new) => .renameIndex old new

/-- The act of a call on the schema; none if it is not understood. -/
def schemaAct? : SchemaCall → Option SchemaAct
  | .block "create" table body => (body.mapM act?).map (.create table)
  | .block "table" table body => (body.mapM act?).map (.alter table)
  | .plain "dropIfExists" table => some (.dropIfExists table)
  | _ => none

/-- What the code of a text does to a database; none if it is not understood. -/
def acts? (text : String) : Option (List SchemaAct) :=
  (read? text).bind fun calls => calls.mapM schemaAct?

/-! ## Names read back -/

theorem name?_quote (text : String) (rest : List Char) :
    name? ((quote text).toList ++ rest) = some (text, rest) := by
  rw [toList_quote_append, name?, literalBody?_flatMap_append]
  simp

theorem name?_quote_alone (text : String) : name? (quote text).toList = some (text, []) := by
  simpa using name?_quote text []

theorem listBody?_joinWith {names : List String} (some_ : names ≠ []) (rest : List Char) :
    ∃ cs, (joinWith ", " (names.map quote)).toList ++ (']' :: rest) = '\'' :: cs ∧
      listBody? cs = some (names, rest) := by
  induction names with
  | nil => exact absurd rfl some_
  | cons name names ih =>
      cases names with
      | nil =>
          refine ⟨_, toList_quote_append name _, ?_⟩
          rw [listBody?, literalBody?_flatMap_append]
          simp
      | cons next names =>
          obtain ⟨cs, chars, read⟩ := ih (List.cons_ne_nil _ _)
          refine ⟨name.toList.flatMap escapeQuoted ++ '\'' :: ',' :: ' ' :: '\'' :: cs, ?_, ?_⟩
          · rw [← chars]
            simp [joinWith, quote]
          · rw [listBody?, literalBody?_flatMap_append]
            simp [read]

theorem names?_quoteList (names : List String) (rest : List Char) :
    names? ((quoteList names).toList ++ rest) = some (names, rest) := by
  by_cases some_ : names = []
  · subst some_
    rfl
  · obtain ⟨cs, chars, read⟩ := listBody?_joinWith some_ rest
    have whole : (quoteList names).toList ++ rest = '[' :: '\'' :: cs := by
      rw [← chars]
      simp [quoteList]
    rw [whole, names?, read]

theorem names?_quote (name : String) (rest : List Char) :
    names? ((quote name).toList ++ rest) = some ([name], rest) := by
  have read := name?_quote name rest
  rw [toList_quote_append] at read ⊢
  simp [names?, read]

theorem names?_quoteNames (names : List String) (rest : List Char) :
    names? ((quoteNames names).toList ++ rest) = some (writtenNames names, rest) := by
  match names with
  | [] => exact names?_quote "" rest
  | [name] => exact names?_quote name rest
  | first :: second :: names => exact names?_quoteList _ rest

theorem names?_quoteList_alone (names : List String) :
    names? (quoteList names).toList = some (names, []) := by
  simpa using names?_quoteList names []

theorem pair?_quote (first second : String) :
    pair? (quote first ++ ", " ++ quote second).toList = some (first, second) := by
  have chars : (quote first ++ ", " ++ quote second).toList =
      (quote first).toList ++ ',' :: ' ' :: ((quote second).toList ++ []) := by
    simp
  simp only [chars, pair?, name?_quote]

theorem declaredKey?_keyCall (kind : KeyKind) (columns : List String) (name : Option String) :
    declaredKey? kind (keyCall kind columns name).arguments.toList =
      some (.ofName kind (writtenNames columns) name) := by
  have chars : (keyCall kind columns name).arguments.toList =
      (quoteNames columns).toList ++ ',' :: ' ' :: ((name.map quote).getD "null").toList := by
    simp [keyCall]
  rw [declaredKey?, chars, names?_quoteNames]
  cases name with
  | none => rfl
  | some name =>
      have other : (quote name).toList ≠ "null".toList := by simp [quote]
      simp only [Option.map_some, Option.getD_some]
      rw [if_neg other, name?_quote_alone]
      rfl

theorem droppedKey?_name (kind : KeyKind) (name : String) :
    droppedKey? kind (quoteNames [name]).toList = some (.named name) := by
  simp [droppedKey?, quoteNames, name?_quote_alone]

theorem droppedKey?_columns (kind : KeyKind) (columns : List String) :
    droppedKey? kind (quoteList columns).toList = some (.unnamed kind columns) := by
  have unnamed : name? (quoteList columns).toList = none := by simp [quoteList, name?]
  simp [droppedKey?, unnamed, names?_quoteList_alone]

/-- The arguments that say what is taken away. -/
def targetArguments : DropTarget → String
  | .name name => quoteNames [name]
  | .columns columns => quoteList columns

theorem droppedKey?_target (kind : KeyKind) (target : DropTarget) :
    droppedKey? kind (targetArguments target).toList = some (target.keyId kind) := by
  cases target with
  | name name => exact droppedKey?_name kind name
  | columns columns => exact droppedKey?_columns kind columns

theorem names?_target (target : DropTarget) :
    names? (targetArguments target).toList = some (target.columnNames, []) := by
  cases target with
  | name name =>
      have read : names? (quote name).toList = some ([name], []) := by simpa using names?_quote name []
      exact read
  | columns columns => exact names?_quoteList_alone columns

/-! ## Statements read back -/

theorem act?_column {declaration : Declaration} (listed : declaration.method ∈ columnMethods)
    (options : List ColumnOption) (change : Bool) :
    act? (declaration.call ::
        ((modifierCalls options).map ModifierCall.call ++ changeCalls change)) =
      some (if change then .changeColumn declaration.column else .addColumn declaration.column) := by
  have use : ∀ m ∈ columnMethods, methodUse? m.method = some .column := by decide
  have others : ∀ m ∈ presentModifiers ++ absentModifiers, m.method ≠ "change" := by decide
  have method : methodUse? declaration.call.method = some .column := use _ listed
  have unchanged : ((modifierCalls options).map ModifierCall.call).any (·.method == "change") =
      false := by
    simp only [List.any_eq_false, List.forall_mem_map, beq_iff_eq]
    exact fun call made => others _ (ModifierCall.of_mem_modifierCalls made).1
  have changed : ((modifierCalls options).map ModifierCall.call ++ changeCalls change).any
      (·.method == "change") = change := by
    rw [List.any_append, unchanged]
    cases change <;> rfl
  have name : name? declaration.call.arguments.toList = some (declaration.column, []) ∨
      ∃ rest, name? declaration.call.arguments.toList = some (declaration.column, ',' :: rest) := by
    cases length : declaration.length with
    | none =>
        exact .inl (by simpa [Declaration.call, length] using name?_quote_alone declaration.column)
    | some n =>
        refine .inr ⟨' ' :: (toString n.toNat).toList, ?_⟩
        rw [← name?_quote]
        simp [Declaration.call, length]
  rw [act?]
  simp only [method, changed]
  rcases name with alone | ⟨rest, more⟩
  · simp only [alone]
  · simp only [more]

theorem act?_keyCall (kind : KeyKind) (columns : List String) (name : Option String)
    (later : List MethodCall) :
    act? (keyCall kind columns name :: later) =
      some (.addKey kind (.ofName kind (writtenNames columns) name)) := by
  have use : methodUse? (keyCall kind columns name).method = some (.key kind) := by
    cases kind <;> rfl
  simp only [act?, use, declaredKey?_keyCall, Option.map_some]

theorem statements_drop (method : NameMethod) (target : DropTarget) :
    (TableCommand.drop method target).statements = [[⟨method.method, targetArguments target⟩]] := by
  cases target <;> rfl

theorem act?_dropKey {kind : KeyKind} {method : NameMethod}
    (drops : kind.dropMethod? = some method) (target : DropTarget) :
    act? [⟨method.method, targetArguments target⟩] = some (.dropKey kind (target.keyId kind)) := by
  have use : methodUse? method.method = some (.dropKey kind) := by
    cases kind <;> simp only [KeyKind.dropMethod?, Option.some.injEq, reduceCtorEq] at drops <;>
      subst drops <;> rfl
  simp only [act?, use, droppedKey?_target, Option.map_some]

theorem mapM_act?_statements {command : TableCommand} (h : command.IsStatement) :
    command.statements.mapM act? = some command.acts := by
  have single {chain : List MethodCall} {act : TableAct} (read : act? chain = some act) :
      [chain].mapM act? = some [act] := by
    simp [read]
  cases command with
  | column declaration modifiers change =>
      obtain ⟨listed, options, rfl⟩ := h
      exact single (act?_column listed options change)
  | key kind columns name => exact single (act?_keyCall kind columns name [])
  | «foreign» columns name target => exact single (act?_keyCall .foreign columns name _)
  | drop method target =>
      rw [statements_drop]
      cases method with
      | references => exact absurd rfl h
      | dropColumn =>
          have use : methodUse? NameMethod.dropColumn.method = some .dropColumn := by rfl
          refine single ?_
          simp only [act?, use, names?_target]
      | dropIndex => exact single (@act?_dropKey .index _ rfl target)
      | dropUnique => exact single (@act?_dropKey .unique _ rfl target)
      | dropFullText => exact single (@act?_dropKey .fullText _ rfl target)
      | dropForeign => exact single (@act?_dropKey .foreign _ rfl target)
  | rename table =>
      have use : methodUse? "rename" = some .rename := by rfl
      refine single ?_
      simp only [act?, use, name?_quote_alone]
  | renameColumn old new =>
      have use : methodUse? "renameColumn" = some .renameColumn := by rfl
      refine single ?_
      simp only [act?, use, pair?_quote, Option.map_some]
  | renameIndex old new =>
      have use : methodUse? "renameIndex" = some .renameIndex := by rfl
      refine single ?_
      simp only [act?, use, pair?_quote, Option.map_some]
  | remark => exact h.elim

theorem mapM_flatMap {α β γ : Type} {f : α → List β} {g : β → Option γ} {h : α → List γ}
    {as : List α} (each : ∀ a ∈ as, (f a).mapM g = some (h a)) :
    (as.flatMap f).mapM g = some (as.flatMap h) := by
  induction as with
  | nil => rfl
  | cons a as ih =>
      rw [List.forall_mem_cons] at each
      rw [List.flatMap_cons, List.mapM_append, each.1, ih each.2]
      rfl

theorem mapM_schemaAct?_calls {command : SchemaCommand} (h : command.IsStatement) :
    command.calls.mapM schemaAct? = some command.acts := by
  cases command with
  | create table body | alter table body =>
      have inside : (body.flatMap TableCommand.statements).mapM act? =
          some (body.flatMap TableCommand.acts) :=
        mapM_flatMap fun command member => mapM_act?_statements (h command member)
      simp [SchemaCommand.calls, SchemaCommand.acts, schemaAct?, inside]
  | dropIfExists table => rfl
  | remark => exact h.elim

/-- Code that is read back as the calls of commands is understood as what they do. -/
theorem acts?_of_read? {text : String} {commands : List SchemaCommand}
    (read : read? text = some (commands.flatMap SchemaCommand.calls))
    (h : ∀ command ∈ commands, command.IsStatement) :
    acts? text = some (commands.flatMap SchemaCommand.acts) := by
  rw [acts?, read]
  exact mapM_flatMap fun command member => mapM_schemaAct?_calls (h command member)

end Code

end TableShift
