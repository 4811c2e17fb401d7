import Mathlib.Data.List.DropRight
import TableShift.Migration.Plan
import TableShift.Proofs.Layout

/-! # What a batch holds

One migration for several statements is made of the migrations of the single statements:
the code that carries them out in order, the code that takes them back last first, and an
empty line between two blocks. A batch that is used again and again holds no more than
the statements added since it was last cleared.
-/

namespace TableShift

/-! ## Squashed and single migrations -/

/-- What stands between the blocks of two statements. -/
def blockSeparator (indent : Nat) : String :=
  "\n\n" ++ tabs indent

theorem Draft.text_writeLines_ne_empty (ls : List Line) (d : Draft) (written : d.text ≠ "") :
    (d.writeLines ls).text ≠ "" := by
  induction ls generalizing d with
  | nil => exact written
  | cons l ls ih =>
      rw [writeLines, List.foldl_cons]
      apply ih
      simp [writeLine, deeper, shallower, line, append, isEmpty, written]

theorem SchemaCommand.exists_first_line (command : SchemaCommand) :
    ∃ (first : Line) (ls : List Line), command.lines = first :: ls ∧ first.text ≠ "" := by
  cases command with
  | create table body | alter table body =>
      refine ⟨_, _, rfl, ?_⟩
      simp
  | dropIfExists table =>
      refine ⟨⟨0, "Schema::dropIfExists(" ++ quote table ++ ");"⟩, [], rfl, ?_⟩
      simp
  | remark operation target =>
      refine ⟨⟨0, remarkCode operation target⟩, [], rfl, ?_⟩
      unfold remarkCode
      simp

theorem SchemaCommand.code_ne_empty (indent : Nat) {commands : List SchemaCommand}
    (h : commands ≠ []) : code indent commands ≠ "" := by
  obtain ⟨command, rest, rfl⟩ := List.exists_cons_of_ne_nil h
  obtain ⟨first, ls, lines, visible⟩ := command.exists_first_line
  have start : (Draft.atLevel indent).writeLine first = ⟨first.text, indent⟩ := by
    simp [Draft.writeLine, Draft.deeper, Draft.shallower, Draft.line, Draft.append, Draft.isEmpty,
      Draft.atLevel]
  rw [code, List.flatMap_cons, lines, List.cons_append, Draft.writeLines, List.foldl_cons, start,
    ← Draft.writeLines]
  exact Draft.text_writeLines_ne_empty _ _ visible

theorem Statement.step_ne_nil {statement : Statement} (h : statement ≠ .drop ⟨[]⟩) :
    statement.step.up ≠ [] ∧ statement.step.down ≠ [] := by
  cases statement with
  | create | alter => exact ⟨List.cons_ne_nil _ _, List.cons_ne_nil _ _⟩
  | drop statement =>
      have named : statement.tables ≠ [] := by
        intro none
        apply h
        cases statement
        simp_all
      simp [step, DropTable.step, named]

namespace Batch

theorem text_foldl_blocks (blocks : List String) (d : Draft) (written : d.text ≠ "") :
    (blocks.foldl (fun (d : Draft) block => d.blankLine.line block) d).text =
      (blockSeparator d.level).intercalate (d.text :: blocks) := by
  induction blocks generalizing d with
  | nil => simp
  | cons block blocks ih =>
      have step : d.blankLine.line block =
          ⟨d.text ++ blockSeparator d.level ++ block, d.level⟩ := by
        rw [Draft.blankLine_line, Draft.separation, if_neg written, blockSeparator]
      rw [List.foldl_cons, step, ih _ (by simp [written]), String.intercalate_cons_append,
        String.intercalate_cons_cons]

theorem joinBlocks_eq_intercalate (indent : Nat) {blocks : List String}
    (visible : ∀ block ∈ blocks, block ≠ "") :
    joinBlocks indent blocks = (blockSeparator indent).intercalate blocks := by
  cases blocks with
  | nil => simp [joinBlocks, Draft.atLevel]
  | cons block blocks =>
      have first : (Draft.atLevel indent).blankLine.line block = ⟨block, indent⟩ := by
        rw [Draft.blankLine_line]
        simp [Draft.atLevel, Draft.separation]
      rw [joinBlocks, List.foldl_cons, first]
      exact text_foldl_blocks blocks ⟨block, indent⟩ (visible block (List.mem_cons_self ..))

end Batch

namespace Migration

theorem squash_singleton (statement : Statement) (indent : Nat) :
    squash [statement] indent =
      ⟨SchemaCommand.code indent statement.step.up, SchemaCommand.code indent statement.step.down⟩ := by
  have down : Batch.joinBlocks indent [SchemaCommand.code indent statement.step.down] =
      SchemaCommand.code indent statement.step.down := by
    rw [Batch.joinBlocks, List.foldl_cons, List.foldl_nil, Draft.blankLine_line]
    simp [Draft.atLevel, Draft.separation]
  exact congrArg (Migration.mk _) down

theorem each_eq_map (statements : List Statement) (indent : Nat) :
    each statements indent = statements.map fun statement => squash [statement] indent := by
  induction statements with
  | nil => rfl
  | cons statement statements ih =>
      rw [List.map_cons, ← ih]
      rfl

theorem squash_up_eq_intercalate (statements : List Statement) (indent : Nat)
    (named : ∀ s ∈ statements, s ≠ .drop ⟨[]⟩) :
    (squash statements indent).up =
      (blockSeparator indent).intercalate ((each statements indent).map Migration.up) := by
  have singles : (each statements indent).map Migration.up =
      statements.map fun s => SchemaCommand.code indent s.step.up := by
    simp [each_eq_map, squash_singleton]
  rw [squash_up statements indent named, singles]
  apply Batch.joinBlocks_eq_intercalate
  intro block member
  obtain ⟨s, listed, rfl⟩ := List.mem_map.mp member
  exact SchemaCommand.code_ne_empty indent (Statement.step_ne_nil (named s listed)).1

theorem squash_down_eq_intercalate (statements : List Statement) (indent : Nat)
    (named : ∀ s ∈ statements, s ≠ .drop ⟨[]⟩) :
    (squash statements indent).down =
      (blockSeparator indent).intercalate ((each statements indent).map Migration.down).reverse := by
  have singles : ((each statements indent).map Migration.down).reverse =
      statements.reverse.map fun s => SchemaCommand.code indent s.step.down := by
    simp [each_eq_map, squash_singleton]
  rw [squash_down, singles]
  apply Batch.joinBlocks_eq_intercalate
  intro block member
  obtain ⟨s, listed, rfl⟩ := List.mem_map.mp member
  exact SchemaCommand.code_ne_empty indent
    (Statement.step_ne_nil (named s (List.mem_reverse.mp listed))).2

theorem migration_plan_none (statements : List Statement) (indent : Nat) :
    (PendingMigration.plan statements indent none).map PendingMigration.migration =
      each statements indent := by
  have length : (each statements indent).length = statements.length := by simp [each_eq_map]
  have second : (statements.zip (each statements indent)).map Prod.snd = each statements indent :=
    List.map_snd_zip (Nat.le_of_eq length)
  simpa [PendingMigration.plan, Function.comp_def] using second

theorem migration_plan_some (indent : Nat) (name : String) {statements : List Statement}
    (h : statements ≠ []) :
    (PendingMigration.plan statements indent (some name)).map PendingMigration.migration =
      [squash statements indent] := by
  obtain ⟨first, rest, rfl⟩ := List.exists_cons_of_ne_nil h
  rfl

/-- A squashed migration is the joined code of the single ones, and a plan carries either
    the single migrations or the squashed one. -/
theorem squash_eq_joined (statements : List Statement) (indent : Nat)
    (named : ∀ s ∈ statements, s ≠ .drop ⟨[]⟩) :
    (squash statements indent).up =
        ("\n\n" ++ tabs indent).intercalate ((each statements indent).map Migration.up) ∧
      (squash statements indent).down =
        ("\n\n" ++ tabs indent).intercalate ((each statements indent).map Migration.down).reverse ∧
      (PendingMigration.plan statements indent none).map PendingMigration.migration =
        each statements indent ∧
      (statements ≠ [] → ∀ name,
        (PendingMigration.plan statements indent (some name)).map PendingMigration.migration =
          [squash statements indent]) := by
  refine ⟨squash_up_eq_intercalate statements indent named,
    squash_down_eq_intercalate statements indent named, migration_plan_none statements indent, ?_⟩
  intro nonempty name
  exact migration_plan_some indent name nonempty

/-- A table is made, altered and dropped with another one. -/
def peopleComeAndGo : List Statement :=
  [.create ⟨"people", [{ name := some "id", type := some ⟨"INT", [], []⟩ }]⟩,
    .alter ⟨"people", [⟨["RENAME", "TO"], none, [.identifier "staff"]⟩]⟩,
    .drop ⟨["staff", "rooms"]⟩]

theorem squash_eq_joined_peopleComeAndGo :
    (∀ s ∈ peopleComeAndGo, s ≠ .drop ⟨[]⟩) ∧ peopleComeAndGo ≠ [] ∧
      (squash peopleComeAndGo 1).up =
        "\n\n\t".intercalate ((each peopleComeAndGo 1).map Migration.up) ∧
      (squash peopleComeAndGo 1).down =
        "\n\n\t".intercalate ((each peopleComeAndGo 1).map Migration.down).reverse ∧
      (PendingMigration.plan peopleComeAndGo 1 (some "all")).map PendingMigration.migration =
        [squash peopleComeAndGo 1] := by
  have named : ∀ s ∈ peopleComeAndGo, s ≠ .drop ⟨[]⟩ := by decide
  have nonempty : peopleComeAndGo ≠ [] := by decide
  obtain ⟨up, down, _, squashed⟩ := squash_eq_joined peopleComeAndGo 1 named
  exact ⟨named, nonempty, up, down, squashed nonempty "all"⟩

end Migration

/-! ## Runs of calls -/

namespace Batch

/-- A call on a batch that is kept and used again. -/
inductive Call where
  | handle (statement : Statement)
  /-- Shows the migration of what the batch holds. -/
  | get
  /-- Hands out the migration and clears the batch. -/
  | finish
  | reset

namespace Call

/-- The batch after a call, and the migration that the call answers with. -/
def apply (b : Batch) : Call → Batch × Option Migration
  | handle statement => (b.add statement, none)
  | get => (b, some b.migration)
  | finish => (b.clear, some b.migration)
  | reset => (b.clear, none)

def statement? : Call → Option Statement
  | handle statement => some statement
  | get | finish | reset => none

/-- Whether a call leaves the batch empty. -/
def clears : Call → Bool
  | finish | reset => true
  | handle _ | get => false

/-- The statements handled since the last call that cleared the batch. -/
def pending (calls : List Call) : List Statement :=
  (calls.rtakeWhile (!·.clears)).filterMap statement?

theorem pending_append (calls : List Call) (call : Call) :
    pending (calls ++ [call]) = if call.clears then [] else pending calls ++ call.statement?.toList := by
  rw [pending, List.rtakeWhile_concat]
  cases call with
  | handle statement => simp [clears, statement?, pending]
  | get => simp [clears, statement?, pending]
  | finish | reset => simp [clears]

end Call

/-- The batch after calls. -/
def after (b : Batch) (calls : List Call) : Batch :=
  calls.foldl (fun b call => (call.apply b).1) b

/-- What calls answer, one after the other. -/
def answers (b : Batch) : List Call → List (Option Migration)
  | [] => []
  | call :: calls => (call.apply b).2 :: answers (call.apply b).1 calls

theorem after_append (b : Batch) (calls later : List Call) :
    b.after (calls ++ later) = (b.after calls).after later :=
  List.foldl_append

theorem answers_append (b : Batch) (calls later : List Call) :
    b.answers (calls ++ later) = b.answers calls ++ (b.after calls).answers later := by
  induction calls generalizing b with
  | nil => rfl
  | cons call calls ih => exact congrArg (List.cons _) (ih _)

theorem length_answers (b : Batch) (calls : List Call) :
    (b.answers calls).length = calls.length := by
  induction calls generalizing b with
  | nil => rfl
  | cons call calls ih => simp [answers, ih]

theorem addAll_append (b : Batch) (statements : List Statement) (statement : Statement) :
    b.addAll (statements ++ [statement]) = (b.addAll statements).add statement := by
  simp [addAll]

theorem apply_addAll_pending (indent : Nat) (calls : List Call) (call : Call) :
    (call.apply ((empty indent).addAll (Call.pending calls))).1 =
      (empty indent).addAll (Call.pending (calls ++ [call])) := by
  have cleared : ((empty indent).addAll (Call.pending calls)).clear = empty indent :=
    congrArg empty (indent_addAll (empty indent) (Call.pending calls))
  rw [Call.pending_append]
  cases call with
  | handle statement => exact (addAll_append _ _ _).symm
  | get => simp [Call.apply, Call.clears, Call.statement?]
  | finish | reset => exact cleared

/-- After any calls a batch holds what is pending. -/
theorem after_eq_addAll_pending (indent : Nat) (calls : List Call) :
    (empty indent).after calls = (empty indent).addAll (Call.pending calls) := by
  induction calls using List.reverseRecOn with
  | nil => rfl
  | append_singleton calls call ih =>
      rw [after_append, ih]
      exact apply_addAll_pending indent calls call

/-- A statement leaves a block, even one that writes no code. -/
theorem isEmpty_addAll_iff (indent : Nat) (statements : List Statement) :
    ((empty indent).addAll statements).isEmpty = true ↔ statements = [] := by
  constructor
  · intro empty
    simp only [isEmpty, Bool.and_eq_true] at empty
    have blocks := List.isEmpty_iff.mp empty.2
    rw [down_addAll] at blocks
    simpa [Batch.empty] using blocks
  · rintro rfl
    rfl

theorem level_addAll (b : Batch) (statements : List Statement) :
    (b.addAll statements).up.level = b.up.level := by
  induction statements generalizing b with
  | nil => rfl
  | cons statement statements ih =>
      have level : (b.add statement).up.level = b.up.level := by
        rw [add, Draft.level_writeLines, Draft.blankLine]
        split <;> rfl
      rw [addAll, List.foldl_cons, ← addAll, ih, level]

/-- Nothing leaks from one migration into the next, whatever the calls on a batch. -/
theorem calls_isolated (indent : Nat) (calls : List Call) :
    ((empty indent).after calls).migration = Migration.squash (Call.pending calls) indent ∧
      (((empty indent).after calls).isEmpty = true ↔ Call.pending calls = []) ∧
      ((empty indent).after calls).up.level = indent ∧
      (∀ later, ((empty indent).answers (calls ++ .finish :: later))[calls.length]? =
        some (some ((empty indent).after calls).migration)) ∧
      (∀ later, (empty indent).after (calls ++ .get :: later) = (empty indent).after (calls ++ later)) ∧
      (∀ statements, Migration.each statements indent =
        statements.map fun statement => Migration.squash [statement] indent) := by
  have state := after_eq_addAll_pending indent calls
  refine ⟨?_, ?_, ?_, ?_, ?_, ?_⟩
  · rw [state]
    rfl
  · rw [state]
    exact isEmpty_addAll_iff indent (Call.pending calls)
  · rw [state, level_addAll]
    rfl
  · intro later
    rw [answers_append, List.getElem?_append_right (Nat.le_of_eq (length_answers _ _)),
      length_answers, Nat.sub_self]
    rfl
  · intro later
    rw [after_append, after_append]
    rfl
  · intro statements
    exact Migration.each_eq_map statements indent

end Batch

end TableShift
