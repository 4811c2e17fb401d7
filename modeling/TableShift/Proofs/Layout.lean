import TableShift.Migration.Batch

/-! # The layout of a batch

A block is made of the lines of its fields or clauses. A batch writes its up code line by
line into one draft and keeps its down code in blocks. Both are the code of the
statements' commands, block by block, with an empty line between two blocks: what a block
looks like does not depend on what stands before it.
-/

namespace TableShift

/-! ## Inside a block -/

/-- The lines of a field in the creation of its table. -/
def Field.lines (field : Field) (autoIncrement : List String) : List Line :=
  (field.commands autoIncrement).flatMap TableCommand.lines

/-- The lines of a clause in the alteration of a table. -/
def AlterOperation.lines (operation : AlterOperation) (table : String) : List Line :=
  ((operation.effect? table).toList.flatMap ClauseEffect.up).flatMap TableCommand.lines

theorem CreateTable.lines_body (statement : CreateTable) :
    statement.body.flatMap TableCommand.lines =
      statement.fields.flatMap (·.lines statement.autoIncrement) := by
  rw [body, List.flatMap_assoc]
  rfl

theorem AlterTable.lines_effects_cons (table : String) (operation : AlterOperation)
    (operations : List AlterOperation) :
    ((effects table (operation :: operations)).flatMap ClauseEffect.up).flatMap TableCommand.lines =
      operation.lines table ++
        ((effects (((operation.effect? table).map ClauseEffect.table).getD table)
          operations).flatMap ClauseEffect.up).flatMap TableCommand.lines := by
  rw [effects, AlterOperation.lines]
  cases operation.effect? table with
  | none => simp
  | some effect => simp [List.flatMap_append]

/-! ## Block by block -/

/-- The code of commands that stand in one block. -/
def SchemaCommand.code (indent : Nat) (commands : List SchemaCommand) : String :=
  ((Draft.atLevel indent).writeLines (commands.flatMap lines)).text

namespace Draft

theorem writeLines_behind (front : String) (ls : List Line) (d : Draft) (written : d.text ≠ "") :
    (Draft.mk (front ++ d.text) d.level).writeLines ls =
      ⟨front ++ (d.writeLines ls).text, d.level⟩ := by
  induction ls generalizing d with
  | nil => rfl
  | cons l ls ih =>
      have stays : (d.writeLine l).text ≠ "" := by
        simp [writeLine, deeper, shallower, line, append, isEmpty, written]
      have level : (d.writeLine l).level = d.level := by
        simp [writeLine, deeper, shallower, line, append]
      have step : (Draft.mk (front ++ d.text) d.level).writeLine l =
          ⟨front ++ (d.writeLine l).text, (d.writeLine l).level⟩ := by
        simp [writeLine, deeper, shallower, line, append, isEmpty, written, String.append_assoc]
      rw [writeLines, List.foldl_cons, step]
      have later := ih (d.writeLine l) stays
      rw [level] at later ⊢
      exact later

/-- What stands between a draft and the next block of code. -/
def separation (d : Draft) : String :=
  if d.text = "" then "" else "\n\n" ++ tabs d.level

theorem blankLine_line (d : Draft) (fragment : String) :
    d.blankLine.line fragment = ⟨d.text ++ d.separation ++ fragment, d.level⟩ := by
  have newlines : "\n" ++ ("\n" ++ (tabs d.level ++ fragment)) =
      "\n\n" ++ (tabs d.level ++ fragment) := by
    rw [← String.append_assoc]
    rfl
  by_cases empty : d.text = ""
  · simp [blankLine, line, append, isEmpty, separation, empty]
  · simp [blankLine, line, append, isEmpty, separation, empty, String.append_assoc, newlines]

theorem blankLine_writeLines (d : Draft) (first : Line) (ls : List Line)
    (shallow : first.depth = 0) (visible : first.text ≠ "") :
    d.blankLine.writeLines (first :: ls) =
      d.blankLine.line ((Draft.atLevel d.level).writeLines (first :: ls)).text := by
  have alone : (Draft.atLevel d.level).writeLine first = ⟨first.text, d.level⟩ := by
    simp [writeLine, deeper, shallower, line, append, isEmpty, atLevel]
  have block : (Draft.atLevel d.level).writeLines (first :: ls) =
      (Draft.mk first.text d.level).writeLines ls := by
    rw [writeLines, List.foldl_cons, alone, writeLines]
  have start : d.blankLine.writeLine first =
      ⟨(d.text ++ d.separation) ++ first.text, d.level⟩ := by
    rw [← blankLine_line]
    simp [writeLine, deeper, shallower, shallow]
  calc
    d.blankLine.writeLines (first :: ls)
        = (Draft.mk ((d.text ++ d.separation) ++ first.text) d.level).writeLines ls := by
          rw [writeLines, List.foldl_cons, start, writeLines]
    _ = ⟨d.text ++ d.separation ++ ((Draft.mk first.text d.level).writeLines ls).text, d.level⟩ :=
          writeLines_behind (d.text ++ d.separation) ls ⟨first.text, d.level⟩ visible
    _ = d.blankLine.line ((Draft.atLevel d.level).writeLines (first :: ls)).text := by
          rw [blankLine_line, block]

end Draft

/-- Every statement has code, a drop of no tables aside. -/
theorem Statement.exists_first_line {statement : Statement} (h : statement ≠ .drop ⟨[]⟩) :
    ∃ (first : Line) (ls : List Line),
      statement.step.up.flatMap SchemaCommand.lines = first :: ls ∧
        first.depth = 0 ∧ first.text ≠ "" := by
  cases statement with
  | create statement => exact ⟨_, _, rfl, rfl, by simp⟩
  | alter statement => exact ⟨_, _, rfl, rfl, by simp⟩
  | drop statement =>
      cases tables : statement.tables with
      | nil => exact absurd (congrArg Statement.drop (by cases statement; simp_all)) h
      | cons table rest =>
          refine ⟨⟨0, "Schema::dropIfExists(" ++ quote table ++ ");"⟩,
            (rest.map SchemaCommand.dropIfExists).flatMap SchemaCommand.lines, ?_, rfl, by simp⟩
          simp [Statement.step, DropTable.step, tables, SchemaCommand.lines]

namespace Batch

theorem indent_addAll (b : Batch) (statements : List Statement) :
    (b.addAll statements).indent = b.indent := by
  induction statements generalizing b with
  | nil => rfl
  | cons statement statements ih => exact ih (b.add statement)

theorem down_addAll (b : Batch) (statements : List Statement) :
    (b.addAll statements).down =
      b.down ++ statements.map fun s => SchemaCommand.code b.indent s.step.down := by
  induction statements generalizing b with
  | nil => simp [addAll]
  | cons statement statements ih =>
      have later := ih (b.add statement)
      rw [addAll, List.foldl_cons, ← addAll, later]
      simp [add, SchemaCommand.code]

/-- The up draft is the blocks of the statements, joined to what was there. -/
theorem up_addAll (b : Batch) (statements : List Statement) (level : b.up.level = b.indent)
    (named : ∀ s ∈ statements, s ≠ .drop ⟨[]⟩) :
    (b.addAll statements).up =
      (statements.map fun s => SchemaCommand.code b.indent s.step.up).foldl
        (fun d block => d.blankLine.line block) b.up := by
  induction statements generalizing b with
  | nil => rfl
  | cons statement statements ih =>
      obtain ⟨first, ls, lines, shallow, visible⟩ :=
        Statement.exists_first_line (named statement (List.mem_cons_self ..))
      have start : b.up.blankLine.level = b.indent := by
        rw [← level, Draft.blankLine]
        split <;> rfl
      have step : (b.add statement).up =
          b.up.blankLine.line (SchemaCommand.code b.indent statement.step.up) := by
        rw [add, SchemaCommand.code, lines, ← level]
        exact Draft.blankLine_writeLines b.up first ls shallow visible
      have keeps : (b.add statement).up.level = (b.add statement).indent := by
        rw [step]
        exact start
      rw [addAll, List.foldl_cons, ← addAll,
        ih (b.add statement) keeps fun s member => named s (List.mem_cons_of_mem _ member), step]
      rfl

end Batch

namespace Migration

theorem squash_up (statements : List Statement) (indent : Nat)
    (named : ∀ s ∈ statements, s ≠ .drop ⟨[]⟩) :
    (squash statements indent).up =
      Batch.joinBlocks indent (statements.map fun s => SchemaCommand.code indent s.step.up) := by
  rw [squash, Batch.migration, Batch.up_addAll (.empty indent) statements rfl named]
  rfl

theorem squash_down (statements : List Statement) (indent : Nat) :
    (squash statements indent).down =
      Batch.joinBlocks indent
        (statements.reverse.map fun s => SchemaCommand.code indent s.step.down) := by
  rw [squash, Batch.migration, Batch.down_addAll, Batch.indent_addAll, List.map_reverse]
  rfl

end Migration

end TableShift
