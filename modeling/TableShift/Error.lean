import TableShift.Sql.SyntaxError
import TableShift.Store.FileStore

/-! # Errors

Why making migrations fails, with the wording of each cause.
-/

namespace TableShift

/-- What is wrong with a configuration. -/
inductive ConfigFault where
  | indentTooDeep (limit indent : Nat)
  | emptySchema
  | unreadable (path : String) (cause : IoError)
  deriving Repr, DecidableEq, BEq

def ConfigFault.message : ConfigFault → String
  | indentTooDeep limit indent =>
    "indent must be at most " ++ toString limit ++ ", got " ++ toString indent
  | emptySchema => "schema must not be empty"
  | unreadable path cause => "cannot read " ++ path ++ ": " ++ cause.message

inductive Error where
  /-- The script cannot be read. -/
  | script (error : SyntaxError)
  /-- A stub, from a file if a path is given, has no place for the code. -/
  | stub (path : Option String)
  | config (fault : ConfigFault)
  /-- A migration file is already there. -/
  | migrationExists (path : String)
  | io (cause : IoError)
  /-- A configuration file is no valid TOML, or holds something unexpected. -/
  | toml
  deriving Repr, DecidableEq, BEq

/-- The wording of an error. The details of a malformed configuration file are left
    open. -/
def Error.message : Error → String
  | script error =>
    "Parse error at position " ++ toString error.position ++ ": " ++ error.complaint.message
  | stub path =>
    let place :=
      match path with
      | some path => path ++ ": "
      | none => ""
    "Template error: " ++ place ++
      "stub has no up placeholder (\x7b\x7b up \x7d\x7d, \x7b\x7b definition \x7d\x7d or DummyDefinition)"
  | config fault => "Configuration error: " ++ fault.message
  | migrationExists path => "Migration already exists: " ++ path
  | io cause => "IO error: " ++ cause.message
  | toml => "Invalid config file:"

end TableShift
