import TableShift.Cli.Arguments
import TableShift.Cli.Report
import TableShift.Config
import TableShift.Migration.File

/-! # Importing a script

The script's statements become migration files, or with a dry run a listing of
them. Nothing is written unless every file can be.
-/

namespace TableShift

/-- What a run finds around it. -/
structure Environment where
  /-- The time of the first migration. -/
  now : Stamp
  /-- The schema to import if no other is named. -/
  schema : Option String := none
  /-- The directory of the user's configuration files. -/
  configDir : Option String := none
  deriving Repr, DecidableEq, BEq

/-- The configuration files to look for, in order. -/
def Environment.configCandidates (env : Environment) : List String :=
  "sql2blueprint.toml" ::
    (env.configDir.map fun dir => Path.join (Path.join dir "sql2blueprint") "config.toml").toList

namespace ImportOptions

/-- The script to import: a given file, that of a given schema, or the configured one. -/
def inputFile? (options : ImportOptions) (config : Config) : Option String :=
  options.file.or ((options.schema.map diffFile).or config.inputFile?)

/-- The name of the one migration for all statements, if there is to be one. -/
def squashName? (options : ImportOptions) (config : Config) (file : String) : Option String :=
  if options.squash || options.name.isSome || config.migrations.squash then
    some (options.name.getD ("import_" ++ Path.fileStem file))
  else none

end ImportOptions

/-- What is said before the script is read. -/
def importBanner (file : String) (config : Option String) : String :=
  let configLine :=
    match config with
    | some path => "  Config: " ++ path ++ "\n"
    | none => ""
  "📝 Importing DDL\n\n  Input: " ++ file ++ "\n" ++ configLine

/-- What a dry run says about the files. -/
def dryRunText (dir : String) (files : List MigrationFile) : String :=
  String.join (files.map fun file =>
    "── " ++ Path.join dir file.fileName ++ "\n" ++ file.contents ++ "\n") ++
    "  Dry run: " ++ toString files.length ++ " migration(s) rendered, nothing written\n"

/-- What is said about written files. -/
def writtenText (dir : String) (statements : Nat) (paths : List String) : String :=
  String.join (paths.map fun path => "  ✓ Created: " ++ path ++ "\n") ++
    "\n  " ++ toString statements ++ " statement(s) → " ++ toString paths.length ++
    " migration(s) in " ++ dir ++ "\n"

section Run

variable {m : Type → Type} [Monad m] [FileStore m]

/-- The stub in a file, or the builtin one. -/
def chosenStub : Option String → m (Except Error Stub)
  | some path => Stub.load path
  | none => return .ok .builtin

/-- Makes migrations of statements, after `banner` was said. -/
def importStatements (env : Environment) (options : ImportOptions) (config : Config)
    (file banner : String) (statements : List Statement) : m Report := do
  let indent := options.indent.getD config.migrations.indent
  match checkIndent indent with
  | .error e => return .failure banner (.failed e)
  | .ok () =>
    match ← chosenStub (options.stub.or config.migrations.stub) with
    | .error e => return .failure banner (.failed e)
    | .ok stub =>
      let pending := PendingMigration.plan statements indent (options.squashName? config file)
      let files := MigrationFile.render stub env.now pending
      let dir := options.path.getD config.migrations.path
      let out := banner ++ "\n"
      if options.dryRun then return { out := out ++ dryRunText dir files }
      else
        match ← MigrationFile.writeAll dir files with
        | .error e => return .failure out (.failed e)
        | .ok paths => return { out := out ++ writtenText dir statements.length paths }

def runImport (env : Environment) (options : ImportOptions) : m Report := do
  match ← Config.discover options.config env.configCandidates with
  | .error e => return .failure "" (.failed e)
  | .ok (config, used) =>
    match options.inputFile? config with
    | none => return .failure "" .noInput
    | some file =>
      let banner := importBanner file used
      match ← readStatements file with
      | .error e => return .failure banner e
      | .ok statements =>
        if statements.isEmpty then return { out := banner ++ "\n  No table statements found.\n" }
        else importStatements env options config file banner statements

end Run

end TableShift
