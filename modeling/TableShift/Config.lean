import TableShift.Draft
import TableShift.Error
import TableShift.Store.Path
import TableShift.Text.Blank
import TableShift.Toml.Document

/-! # Configuration

Settings from a TOML file: the schema whose script is imported by default, and how
its migrations are written. Every setting has a default, and a setting that is not
known is refused.
-/

namespace TableShift

structure ImportSettings where
  /-- Directory of the migration files. -/
  path : String := "database/migrations"
  /-- File of the stub, if it is not the builtin one. -/
  stub : Option String := none
  /-- Tab level of the code. -/
  indent : Nat := bodyLevel
  /-- Whether there is one migration for all statements. -/
  squash : Bool := false
  deriving Repr, DecidableEq, BEq

structure Config where
  schema : Option String := none
  migrations : ImportSettings := {}
  deriving Repr, DecidableEq, BEq

/-- The script of a schema. -/
def diffFile (schema : String) : String :=
  Path.join "database_model" (schema ++ "_diff.sql")

/-- The deepest tab level of code. -/
def maxIndent : Nat := 16

/-- Refuses code that is too deep. -/
def checkIndent (indent : Nat) : Except Error Unit :=
  if indent ≤ maxIndent then .ok () else .error (.config (.indentTooDeep maxIndent indent))

namespace Toml

def string? : Toml → Option String
  | .string text => some text
  | _ => none

def natural? : Toml → Option Nat
  | .integer (.ofNat n) => some n
  | _ => none

def boolean? : Toml → Option Bool
  | .boolean value => some value
  | _ => none

/-- A value that may be missing, which makes it the default. -/
def withDefault {α : Type} (default : α) (decode : Toml → Option α) : Option Toml → Option α
  | none => some default
  | some toml => decode toml

end Toml

namespace ImportSettings

/-- The settings with given values, or their defaults. -/
def ofParts? (path stub indent squash : Option Toml) : Option ImportSettings := do
  let defaults : ImportSettings := {}
  return {
    path := ← Toml.withDefault defaults.path Toml.string? path
    stub := ← Toml.withDefault defaults.stub (fun toml => toml.string?.map some) stub
    indent := ← Toml.withDefault defaults.indent Toml.natural? indent
    squash := ← Toml.withDefault defaults.squash Toml.boolean? squash }

def names : List String := ["path", "stub", "indent", "squash"]

/-- The settings of a table, or of an array that gives them in order. -/
def ofToml? : Toml → Option ImportSettings
  | .table _ members =>
    if members.all fun (key, _) => names.contains key then
      ofParts? (Toml.member? "path" members) (Toml.member? "stub" members)
        (Toml.member? "indent" members) (Toml.member? "squash" members)
    else none
  | .array items | .tables items => ofParts? items[0]? items[1]? items[2]? items[3]?
  | _ => none

end ImportSettings

namespace Config

/-- The configuration of a document's table, its values not checked yet. -/
def ofMembers? (members : Toml.Members) : Option Config :=
  if members.all fun (key, _) => key == "schema" || key == "import" then do
    let schema ← Toml.withDefault none (fun toml => toml.string?.map some)
      (Toml.member? "schema" members)
    let migrations ← Toml.withDefault {} ImportSettings.ofToml? (Toml.member? "import" members)
    return ⟨schema, migrations⟩
  else none

/-- Refuses code that is too deep, then a schema of blanks. -/
def check (config : Config) : Except Error Config :=
  match checkIndent config.migrations.indent with
  | .error e => .error e
  | .ok () =>
    match config.schema with
    | some schema =>
      if (trim schema).isEmpty then .error (.config .emptySchema) else .ok config
    | none => .ok config

/-- The configuration of a TOML text. -/
def ofText (text : String) : Except Error Config :=
  match (Toml.parse? text).bind ofMembers? with
  | some config => config.check
  | none => .error .toml

/-- The script that is imported by default. -/
def inputFile? (config : Config) : Option String :=
  config.schema.map diffFile

section Load

variable {m : Type → Type} [Monad m] [FileStore m]

def load (path : String) : m (Except Error Config) := do
  match ← FileStore.read path with
  | .error e => return .error (.config (.unreadable path e))
  | .ok text => return ofText text

/-- The configuration of the first of some files that is there, with that file; the
    defaults if none is. -/
def firstOf : List String → m (Except Error (Config × Option String))
  | [] => return .ok ({}, none)
  | path :: paths => do
    if (← FileStore.kind? path) = some .file then return (← load path).map (·, some path)
    firstOf paths

/-- The configuration of a given file, or else of the first candidate. -/
def discover (explicit : Option String) (candidates : List String) :
    m (Except Error (Config × Option String)) := do
  match explicit with
  | some path => return (← load path).map (·, some path)
  | none => firstOf candidates

end Load

end Config

end TableShift
