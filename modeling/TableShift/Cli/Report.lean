import TableShift.Error
import TableShift.Sql.Script

/-! # Reports

What a run of the program says: a text on its output and, if it fails, one on its
error output, with an exit code.
-/

namespace TableShift

structure Report where
  exit : Nat := 0
  out : String := ""
  err : String := ""
  deriving Repr, DecidableEq, BEq

inductive RunError where
  | noInput
  | unreadable (file : String) (cause : IoError)
  | unparsable (file : String) (cause : SyntaxError)
  | failed (cause : Error)
  deriving Repr, DecidableEq, BEq

/-- The wording of a failure with its causes. A cause of the system is named once more
    after the error that it led to. -/
def RunError.message : RunError → String
  | noInput =>
    "No input file. Pass FILE, use --schema, or set \x60schema\x60 in sql2blueprint.toml"
  | unreadable file cause => "Failed to read " ++ file ++ ": " ++ cause.message
  | unparsable file cause => "Failed to parse " ++ file ++ ": " ++ (Error.script cause).message
  | failed (.io cause) => (Error.io cause).message ++ ": " ++ cause.message
  | failed cause => cause.message

namespace Report

/-- A run that fails after some output. -/
def failure (out : String) (error : RunError) : Report where
  exit := 1
  out := out
  err := "Error: " ++ error.message ++ "\n"

end Report

/-- The statements of a script in a file. -/
def readStatements {m : Type → Type} [Monad m] [FileStore m] (file : String) :
    m (Except RunError (List Statement)) := do
  match ← FileStore.read file with
  | .error e => return .error (.unreadable file e)
  | .ok script =>
    match Script.parse script with
    | .error e => return .error (.unparsable file e)
    | .ok statements => return .ok statements

end TableShift
