import TableShift.Cli.Explain
import TableShift.Cli.Import

/-! # Running the program

From the arguments of a command line to the report of its run.
-/

namespace TableShift

def usageText : String :=
  joinWith "\n" [
    "Turn MySQL DDL into schema-builder migrations",
    "",
    "Usage: sql2blueprint [OPTIONS] [FILE] [COMMAND]",
    "",
    "Commands:",
    "  explain FILE [-f text|json]  Show the statements and the generated code",
    "  types                        Show the SQL type reference",
    "",
    "Options:",
    "  -s, --schema SCHEMA  Schema whose diff file is imported when FILE is omitted",
    "  -p, --path PATH      Output directory for migration files",
    "      --squash         Write a single migration for the whole file",
    "  -n, --name NAME      Name of the squashed migration (implies --squash)",
    "      --stub STUB      Custom migration stub",
    "      --indent INDENT  Base tab level of generated code",
    "      --dry-run        Print the migrations instead of writing them",
    "  -c, --config CONFIG  Config file",
    "  -v, --verbose        Verbose output",
    "  -h, --help           Print help",
    "  -V, --version        Print version",
    ""]

/-- The name and version of the program. -/
def versionText : String := "sql2blueprint 0.3.0\n"

/-- Runs a command line on a store of files. -/
def runProgram {m : Type → Type} [Monad m] [FileStore m] (env : Environment)
    (arguments : List String) : m Report :=
  match Invocation.ofArguments env.schema arguments with
  | .importScript options => runImport env options
  | .explain file format => runExplain file format
  | .types => return { out := typesText }
  | .help => return { out := usageText }
  | .version => return { out := versionText }
  | .misuse => return { exit := 2, err := usageText }

end TableShift
