import TableShift.Migration.Batch

/-! # Planned migrations

Which migrations a list of statements leads to, and how they are named: one for
each statement, or one for all of them.
-/

namespace TableShift

/-- A name in lower case with an underscore for every character other than an ASCII
    letter or digit. -/
def safeName (name : String) : String :=
  String.ofList (name.toList.map fun c => if c.isAlphanum then c.toLower else '_')

/-- The name of a statement's migration. -/
def Statement.migrationName : Statement → String
  | create statement => safeName ("create_" ++ statement.table ++ "_table")
  | alter statement => safeName ("update_" ++ statement.table ++ "_table")
  | drop statement =>
    match statement.tables with
    | [] => "drop_tables"
    | [table] => safeName ("drop_" ++ table ++ "_table")
    | first :: _ => safeName ("drop_" ++ first ++ "_table_and_more")

/-- A migration without a file yet. -/
structure PendingMigration where
  name : String
  /-- The table it is mainly about. -/
  table : String
  migration : Migration
  deriving Repr, DecidableEq, BEq

namespace PendingMigration

/-- The migrations of statements: one for each, or a single one of the given name. -/
def plan (statements : List Statement) (indent : Nat) (squash : Option String) :
    List PendingMigration :=
  match squash, statements with
  | some _, [] => []
  | some name, first :: _ => [⟨safeName name, first.table, Migration.squash statements indent⟩]
  | none, _ =>
    (statements.zip (Migration.each statements indent)).map fun (statement, migration) =>
      ⟨statement.migrationName, statement.table, migration⟩

end PendingMigration

end TableShift
