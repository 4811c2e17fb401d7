import TableShift.Schema.Step

/-! # Batches

A batch gathers the code of statements until a migration is made of it. Code that
carries statements out is written in their order, code that takes them back in the
reverse order, with an empty line between the blocks of two statements.
-/

namespace TableShift

/-- The code of a migration in both directions. -/
structure Migration where
  up : String := ""
  down : String := ""
  deriving Repr, DecidableEq, BEq

/-- The code of a batch of statements. -/
structure Batch where
  /-- Tab level of the code. -/
  indent : Nat
  up : Draft
  /-- One block for each statement, in the order of the statements. -/
  down : List String
  deriving Repr, DecidableEq, BEq

namespace Batch

def empty (indent : Nat) : Batch :=
  ⟨indent, .atLevel indent, []⟩

def isEmpty (b : Batch) : Bool :=
  b.up.isEmpty && b.down.isEmpty

def add (b : Batch) (statement : Statement) : Batch :=
  let step := statement.step
  let block := (Draft.atLevel b.indent).writeLines (step.down.flatMap SchemaCommand.lines)
  { b with
    up := b.up.blankLine.writeLines (step.up.flatMap SchemaCommand.lines)
    down := b.down ++ [block.text] }

def addAll (b : Batch) (statements : List Statement) : Batch :=
  statements.foldl add b

/-- Blocks of code with an empty line between each two. -/
def joinBlocks (indent : Nat) (blocks : List String) : String :=
  (blocks.foldl (fun (d : Draft) block => d.blankLine.line block) (Draft.atLevel indent)).text

/-- The migration of what has been added. -/
def migration (b : Batch) : Migration where
  up := b.up.text
  down := joinBlocks b.indent b.down.reverse

/-- The batch before anything was added. -/
def clear (b : Batch) : Batch :=
  empty b.indent

/-- The migrations of statements that go through a batch one at a time. -/
def migrations (b : Batch) : List Statement → List Migration
  | [] => []
  | statement :: statements =>
    let added := b.add statement
    added.migration :: added.clear.migrations statements

end Batch

/-- The migration of one statement, at the level of a method body. -/
def Statement.migration (statement : Statement) : Migration :=
  ((Batch.empty bodyLevel).add statement).migration

namespace Migration

/-- One migration for each statement. -/
def each (statements : List Statement) (indent : Nat) : List Migration :=
  (Batch.empty indent).migrations statements

/-- One migration for all statements. -/
def squash (statements : List Statement) (indent : Nat) : Migration :=
  ((Batch.empty indent).addAll statements).migration

end Migration

end TableShift
