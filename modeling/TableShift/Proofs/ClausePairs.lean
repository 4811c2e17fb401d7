import TableShift.Proofs.Remarks
import TableShift.Proofs.Reversal

/-! # Clauses written in both directions

Each clause of an alteration writes lines in the block that carries the alteration out and
one line in the block that takes it back, or it writes nothing in either. The lines of the
first block stand in the order of the clauses, those of the second the other way round. A
clause that cannot be undone leaves a remark on the name that its call is about, every
other one leaves a call.
-/

namespace TableShift

/-- What a clause writes in the two blocks of an alteration. -/
structure ClauseCode where
  up : List Line
  down : List Line

namespace AlterOperation

/-- What a clause writes when its table has this name. -/
def clauseCode (operation : AlterOperation) (table : String) : ClauseCode where
  up := operation.lines table
  down := (operation.effect? table).toList.flatMap fun effect => effect.down.lines

/-- The new name that a clause gives its table, if it renames the table. -/
def newTable? (operation : AlterOperation) : Option String :=
  match AlterKind.classify? operation.options operation.tokens with
  | some (.renameTable, tokens) => operation.target? tokens
  | _ => none

/-- What a clause can write, depending on its kind. -/
inductive Writes (operation : AlterOperation) : ClauseCode → Prop where
  | nothing : Writes operation ⟨[], []⟩
  /-- Lines, and a call on the table that undoes them. -/
  | undone {kind : AlterKind} {tokens : List Token}
      (classified : AlterKind.classify? operation.options operation.tokens = some (kind, tokens))
      (reversible : kind.isIrreversible = false) (first : Line) (more : List Line) (call : String) :
      Writes operation ⟨first :: more, [⟨0, "$table->" ++ call⟩]⟩
  /-- Lines that begin with a call on a name, and a remark on that name. -/
  | remarked {kind : AlterKind} {tokens : List Token}
      (classified : AlterKind.classify? operation.options operation.tokens = some (kind, tokens))
      (irreversible : kind.isIrreversible = true) (method name arguments : String)
      (more : List Line) :
      Writes operation ⟨⟨0, "$table->" ++ method ++ "(" ++ quote name ++ arguments⟩ :: more,
        [⟨0, "// Revert manually: " ++ kind.label ++ " " ++ name ++
          " (previous definition unknown)"⟩]⟩

end AlterOperation

namespace AlterTable

/-- What clauses write, one after the other, when their table has this name before them. -/
def clauseCodesFrom (table : String) : List AlterOperation → List ClauseCode
  | [] => []
  | operation :: operations =>
    operation.clauseCode table :: clauseCodesFrom (operation.newTable?.getD table) operations

/-- What the clauses of an alteration write, clause by clause. -/
def clauseCodes (statement : AlterTable) : List ClauseCode :=
  clauseCodesFrom statement.table statement.operations

/-- The name of the table after the last clause that renames it. -/
def lastTable (statement : AlterTable) : String :=
  ((statement.operations.filterMap AlterOperation.newTable?).getLast?).getD statement.table

end AlterTable

/-! ## The lines of one clause -/

namespace Line

theorem exists_pushLast_cons (fragment : String) (first : Line) (more : List Line) :
    ∃ (rest : String) (others : List Line),
      pushLast fragment (first :: more) = ⟨first.depth, first.text ++ rest⟩ :: others := by
  cases more with
  | nil => exact ⟨fragment, [], rfl⟩
  | cons next more => exact ⟨"", pushLast fragment (next :: more), by simp [pushLast]⟩

end Line

theorem exists_foreignLines (columns : List String) (name : Option String)
    (target : Option References) :
    ∃ first more, foreignLines columns name target = first :: more := by
  cases target with
  | none =>
      obtain ⟨rest, others, lines⟩ :=
        Line.exists_pushLast_cons ";" ⟨0, keyCode .foreign columns name⟩ []
      exact ⟨_, others, lines⟩
  | some target =>
      obtain ⟨rest, others, lines⟩ := Line.exists_pushLast_cons _ _ _
      exact ⟨_, others, lines⟩

namespace TableCommand

theorem exists_lines_column (declaration : Declaration) (modifiers : List ModifierCall)
    (change : Bool) :
    ∃ arguments more, lines (.column declaration modifiers change) =
      ⟨0, "$table->" ++ declaration.method.method ++ "(" ++ quote declaration.column ++
        arguments⟩ :: more := by
  obtain ⟨arguments, code⟩ : ∃ arguments, declaration.code =
      "$table->" ++ declaration.method.method ++ "(" ++ quote declaration.column ++ arguments := by
    unfold Declaration.code
    cases declaration.length with
    | none => exact ⟨")", rfl⟩
    | some n => exact ⟨", " ++ toString n.toNat ++ ")", by simp only [String.append_assoc]⟩
  obtain ⟨rest, more, pushed⟩ := Line.exists_pushLast_cons ";" ⟨0, declaration.code⟩
    ((modifiers.map ModifierCall.code ++ if change then ["->change()"] else []).map fun call =>
      ⟨1, call⟩)
  refine ⟨arguments ++ rest, more, ?_⟩
  rw [lines, pushed]
  simp only [code, String.append_assoc]

theorem lines_drop_name (method : NameMethod) (name : String) :
    lines (.drop method (.name name)) =
      [⟨0, "$table->" ++ method.method ++ "(" ++ quote name ++ ");"⟩] := by
  have glued : "$table" ++ "->" = "$table->" := rfl
  simp only [lines, NameMethod.onName, NameMethod.chain, quoteNames, ← String.append_assoc, glued]
  simp only [String.append_assoc]
  rfl

/-- A command is one call on the table, on one line. -/
def IsCall (command : TableCommand) : Prop :=
  ∃ call, command.lines = [⟨0, "$table->" ++ call⟩]

theorem isCall_drop (method : NameMethod) (target : DropTarget) : IsCall (.drop method target) := by
  cases target with
  | name name =>
      refine ⟨method.method ++ "(" ++ quote name ++ ");", ?_⟩
      simp only [lines_drop_name, String.append_assoc]
  | columns columns =>
      refine ⟨method.method ++ "(" ++ quoteList columns ++ ")" ++ ";", ?_⟩
      simp only [lines, NameMethod.onColumns, String.append_assoc]

theorem isCall_rename (table : String) : IsCall (.rename table) := by
  have glued : "$table->" ++ "rename(" = "$table->rename(" := rfl
  exact ⟨"rename(" ++ (quote table ++ ");"), by simp only [lines, ← String.append_assoc, glued]⟩

theorem isCall_renameColumn (old new : String) : IsCall (.renameColumn old new) := by
  have glued : "$table->" ++ "renameColumn(" = "$table->renameColumn(" := rfl
  exact ⟨"renameColumn(" ++ (quote old ++ (", " ++ (quote new ++ ");"))),
    by simp only [lines, ← String.append_assoc, glued]⟩

theorem isCall_renameIndex (old new : String) : IsCall (.renameIndex old new) := by
  have glued : "$table->" ++ "renameIndex(" = "$table->renameIndex(" := rfl
  exact ⟨"renameIndex(" ++ (quote old ++ (", " ++ (quote new ++ ");"))),
    by simp only [lines, ← String.append_assoc, glued]⟩

end TableCommand

namespace AlterOperation

variable {operation : AlterOperation} {table : String} {effect : ClauseEffect}

/-- A clause writes what its effect says, and nothing if it has none. -/
theorem clauseCode_of_effect? (h : operation.effect? table = some effect) :
    operation.clauseCode table =
      ⟨effect.up.flatMap TableCommand.lines, effect.down.lines⟩ := by
  simp [clauseCode, lines, h]

theorem writes_clauseCode (operation : AlterOperation) (table : String) :
    operation.Writes (operation.clauseCode table) := by
  cases effective : operation.effect? table with
  | none =>
      have silent : operation.clauseCode table = ⟨[], []⟩ := by
        simp [clauseCode, lines, effective]
      rw [silent]
      exact .nothing
  | some effect =>
      obtain ⟨kind, tokens, classified, contributes⟩ := contributes_of_effect? effective
      have undone {first : Line} {more : List Line} (reversible : kind.isIrreversible = false)
          (up : effect.up.flatMap TableCommand.lines = first :: more)
          (down : effect.down.IsCall) : operation.Writes (operation.clauseCode table) := by
        obtain ⟨call, down⟩ := down
        rw [clauseCode_of_effect? effective, up, down]
        exact .undone classified reversible first more call
      cases contributes with
      | addColumn declaration declared options =>
          obtain ⟨_, _, up⟩ :=
            TableCommand.exists_lines_column declaration (modifierCalls options) false
          exact undone rfl ((List.flatMap_singleton ..).trans up) (TableCommand.isCall_drop _ _)
      | changeColumn declaration declared options newName =>
          obtain ⟨arguments, more, up⟩ :=
            TableCommand.exists_lines_column declaration (modifierCalls options) true
          rw [clauseCode_of_effect? effective, List.flatMap_cons, up, List.cons_append]
          exact .remarked classified rfl declaration.method.method declaration.column arguments _
      | addKey adds drops columns listed name =>
          have reversible : kind.isIrreversible = false := by
            cases kind <;> simp [AlterKind.addedKey?] at adds <;> rfl
          exact undone reversible rfl (TableCommand.isCall_drop _ _)
      | addConstraint columns listed name target =>
          obtain ⟨_, _, up⟩ := exists_foreignLines columns name target
          exact undone rfl ((List.flatMap_singleton ..).trans up) (TableCommand.isCall_drop _ _)
      | @drop _ method drops name =>
          have irreversible : kind.isIrreversible = true := by
            cases kind <;> simp [AlterKind.droppedBy?] at drops <;> rfl
          rw [clauseCode_of_effect? effective, List.flatMap_singleton,
            TableCommand.lines_drop_name]
          exact .remarked classified irreversible method.method name ");" []
      | renameTable newName =>
          exact undone rfl rfl (TableCommand.isCall_rename table)
      | renameColumn old new =>
          exact undone rfl rfl (TableCommand.isCall_renameColumn new old)
      | renameIndex old new =>
          exact undone rfl rfl (TableCommand.isCall_renameIndex new old)

theorem table_of_effect? (h : operation.effect? table = some effect) :
    effect.table = operation.newTable?.getD table := by
  obtain ⟨kind, tokens, classified, contributes⟩ := contributes_of_effect? h
  rw [newTable?, classified]
  cases contributes with
  | renameTable newName =>
      simp only [effect?, classified, renameTableEffect?] at h
      obtain ⟨name, target, same⟩ := Option.map_eq_some_iff.mp h
      simp only [target, Option.getD_some]
      exact (congrArg ClauseEffect.table same).symm
  | addKey adds => cases kind <;> simp [AlterKind.addedKey?] at adds <;> rfl
  | drop drops => cases kind <;> simp [AlterKind.droppedBy?] at drops <;> rfl
  | addColumn | changeColumn | addConstraint | renameColumn | renameIndex => rfl

theorem newTable?_of_effect? (h : operation.effect? table = none) : operation.newTable? = none := by
  unfold newTable?
  split
  · rename_i tokens classified
    simpa [effect?, classified, renameTableEffect?] using h
  · rfl

end AlterOperation

/-! ## The blocks of an alteration -/

namespace AlterTable

theorem forall₂_clauseCodesFrom (table : String) (operations : List AlterOperation) :
    List.Forall₂ AlterOperation.Writes operations (clauseCodesFrom table operations) := by
  induction operations generalizing table with
  | nil => exact .nil
  | cons operation operations ih => exact .cons (operation.writes_clauseCode table) (ih _)

/-- The first block holds what the clauses write there, the second what they write there the
    other way round. -/
theorem lines_effects (table : String) (operations : List AlterOperation) :
    ((effects table operations).flatMap ClauseEffect.up).flatMap TableCommand.lines =
        (clauseCodesFrom table operations).flatMap ClauseCode.up ∧
      ((effects table operations).map ClauseEffect.down).reverse.flatMap TableCommand.lines =
        (clauseCodesFrom table operations).reverse.flatMap ClauseCode.down := by
  induction operations generalizing table with
  | nil => exact ⟨rfl, rfl⟩
  | cons operation operations ih =>
      rw [clauseCodesFrom, effects]
      cases effective : operation.effect? table with
      | none =>
          obtain ⟨up, down⟩ := ih table
          simp [operation.newTable?_of_effect? effective, AlterOperation.clauseCode,
            AlterOperation.lines, effective, up, down]
      | some effect =>
          obtain ⟨up, down⟩ := ih effect.table
          rw [← AlterOperation.table_of_effect? effective,
            AlterOperation.clauseCode_of_effect? effective]
          simp [List.flatMap_append, up, down]

theorem finalTable_effects (table : String) (operations : List AlterOperation) :
    finalTable table (effects table operations) =
      ((operations.filterMap AlterOperation.newTable?).getLast?).getD table := by
  induction operations generalizing table with
  | nil => rfl
  | cons operation operations ih =>
      rw [effects]
      cases effective : operation.effect? table with
      | none => rw [List.filterMap_cons_none (operation.newTable?_of_effect? effective), ← ih table]
      | some effect =>
          rw [finalTable_cons, ih, AlterOperation.table_of_effect? effective]
          cases renamed : operation.newTable? with
          | none => rw [List.filterMap_cons_none renamed, Option.getD_none]
          | some name =>
              rw [List.filterMap_cons_some renamed, List.getLast?_cons, Option.getD_some,
                Option.getD_some]

/-- Each clause of an alteration writes in both blocks, or in neither: lines, in the order of
    the clauses, in the block that carries the alteration out, and one line, the last clause
    first, in the block that takes it back. That line is a remark on the name of the call if the
    clause changes a column or drops a column, an index or a foreign key, and a call otherwise.
    The second block opens on the table's last name. -/
theorem clauses_write_both_or_neither (statement : AlterTable) (indent : Nat) :
    (Migration.squash [.alter statement] indent).up =
        SchemaCommand.alterText indent statement.table
          (statement.clauseCodes.flatMap ClauseCode.up) ∧
      (Migration.squash [.alter statement] indent).down =
        SchemaCommand.alterText indent statement.lastTable
          (statement.clauseCodes.reverse.flatMap ClauseCode.down) ∧
      List.Forall₂ AlterOperation.Writes statement.operations statement.clauseCodes := by
  obtain ⟨up, down⟩ := lines_effects statement.table statement.operations
  rw [Migration.squash_singleton]
  refine ⟨?_, ?_, forall₂_clauseCodesFrom _ _⟩
  · rw [clauseCodes, ← up]
    exact SchemaCommand.code_alter indent _ _
  · rw [clauseCodes, ← down, lastTable, ← finalTable_effects]
    exact SchemaCommand.code_alter indent _ _

end AlterTable

end TableShift
