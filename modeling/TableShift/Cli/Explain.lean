import TableShift.Cli.Arguments
import TableShift.Cli.Report
import TableShift.Migration.Batch
import TableShift.Sql.StatementJson
import TableShift.Text.Lines

/-! # Explaining a script

Shows the statements of a script and the code they lead to, as text or as JSON.
-/

namespace TableShift

/-- The lines on a field: its column, then its key. -/
def Field.describe (field : Field) : List String :=
  let column :=
    match field.name, field.type with
    | some name, some type =>
      let parameters :=
        if type.parameters.isEmpty then "" else "(" ++ joinWith ", " type.parameters ++ ")"
      let options := joinWith " " (field.mergedOptions.map ColumnOption.name)
      ["    • " ++ name ++ " " ++ type.name ++ parameters ++ " " ++ options]
    | _, _ => []
  let key :=
    match field.key with
    | some key =>
      let name := (key.name.or field.name).getD ""
      ["    ◆ " ++ key.kind.sql ++ " (" ++ joinWith ", " key.columnNames ++ ") " ++ name]
    | none => []
  column ++ key

/-- The line on a clause. -/
def AlterOperation.describe (operation : AlterOperation) : String :=
  match AlterKind.classify? operation.options operation.tokens with
  | some (kind, _) => "    • " ++ kind.label ++ " " ++ operation.field.getD ""
  | none => "    • unrecognized " ++ joinWith " " operation.options

/-- The lines on the parts of a statement. -/
def Statement.describe : Statement → List String
  | create statement => statement.fields.flatMap Field.describe
  | alter statement => statement.operations.map AlterOperation.describe
  | drop statement => statement.tables.map ("    • " ++ ·)

/-- A title and the lines of code under it. -/
def codeLines (title code : String) : List String :=
  ("  " ++ title) :: (textLines code).map ("    " ++ ·)

/-- The lines on the statement with a number. -/
def explainStatement (number : Nat) (statement : Statement) (migration : Migration) : List String :=
  ["", "[" ++ toString number ++ "] " ++ statement.label ++ " " ++ statement.table] ++
    statement.describe ++ codeLines "Up:" migration.up ++ codeLines "Down:" migration.down

/-- The lines on statements, the first of which has a number. -/
def explainFrom (number : Nat) : List (Statement × Migration) → List String
  | [] => []
  | (statement, migration) :: rest =>
    explainStatement number statement migration ++ explainFrom (number + 1) rest

/-- Lines, each with its line break. -/
def unlines (lines : List String) : String :=
  String.join (lines.map (· ++ "\n"))

def Migration.toJson (migration : Migration) : Json :=
  .obj [("up", .str migration.up), ("down", .str migration.down)]

def explainJson (explained : List (Statement × Migration)) : Json :=
  .ofList (fun (statement, migration) =>
    .obj [("statement", statement.toJson), ("migration", migration.toJson)]) explained

def explainText (file : String) (format : OutputFormat) (statements : List Statement) : String :=
  let explained := statements.zip (Migration.each statements 0)
  match format with
  | .json => (explainJson explained).pretty ++ "\n"
  | .text => unlines (["🔍 DDL Explanation", "", "File: " ++ file] ++ explainFrom 1 explained)

def runExplain {m : Type → Type} [Monad m] [FileStore m] (file : String) (format : OutputFormat) :
    m Report := do
  match ← readStatements file with
  | .error e => return .failure "" e
  | .ok statements => return { out := explainText file format statements }

/-- The table of the types with their methods. -/
def typesText : String :=
  let row := fun (type method arguments : String) =>
    padRight 18 type ++ " " ++ padRight 16 method ++ " " ++ arguments
  unlines <|
    ["📐 SQL Type Reference", "", row "SQL Type" "Call" "Arguments",
      String.ofList (List.replicate 50 '─')] ++
    columnMethods.map fun m =>
      row m.sqlType m.method (if m.takesLength then "column, length" else "column")

end TableShift
