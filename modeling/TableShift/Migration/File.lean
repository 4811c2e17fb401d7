import TableShift.Migration.Plan
import TableShift.Migration.Stamp
import TableShift.Migration.Stub
import TableShift.Store.Path

/-! # Migration files

Planned migrations become files with a time stamp in front of their names, one
second apart, so the files sort in the order of the statements. Writing them
leaves either all of them or none.
-/

namespace TableShift

structure MigrationFile where
  fileName : String
  contents : String
  deriving Repr, DecidableEq, BEq

namespace MigrationFile

/-- The name of a file that is stamped some seconds after a time. -/
def nameAt (start : Stamp) (seconds : Int) (name : String) : String :=
  (start.addSeconds seconds).text ++ "_" ++ name ++ ".php"

/-- The seconds for a position that is a word of 64 bits: the words of the upper half
    count back from the start. -/
def secondsOfWord (position : UInt64) : Int :=
  position.toInt64.toInt

/-- The files of planned migrations, from a position on. -/
def renderFrom (stub : Stub) (start : Stamp) (position : Nat) :
    List PendingMigration → List MigrationFile
  | [] => []
  | pending :: rest =>
    ⟨nameAt start position pending.name, stub.render pending.table pending.migration⟩ ::
      renderFrom stub start (position + 1) rest

def render (stub : Stub) (start : Stamp) (pending : List PendingMigration) : List MigrationFile :=
  renderFrom stub start 0 pending

section Write

variable {m : Type → Type} [Monad m] [FileStore m]

/-- The first of some paths at which something is there. -/
def firstPresent : List String → m (Option String)
  | [] => return none
  | path :: paths => do
    if (← FileStore.kind? path).isSome then return some path
    firstPresent paths

def removeAll : List String → m Unit
  | [] => return ()
  | path :: paths => do
    FileStore.remove path
    removeAll paths

/-- Writes files below a directory in order. When one cannot be written, those in
    `written` and those written since are removed. -/
def createAll (dir : String) (written : List String) :
    List MigrationFile → m (Except Error (List String))
  | [] => return .ok written
  | file :: files => do
    let path := Path.join dir file.fileName
    match ← FileStore.create path file.contents with
    | .ok () => createAll dir (written ++ [path]) files
    | .error e =>
      removeAll written
      match e with
      | .alreadyExists => return .error (.migrationExists path)
      | e => return .error (.io e)

/-- Writes files below a directory, which is made if it is missing. Nothing is
    written if something is there already at one of their paths. -/
def writeAll (dir : String) (files : List MigrationFile) : m (Except Error (List String)) := do
  match ← firstPresent (files.map fun file => Path.join dir file.fileName) with
  | some path => return .error (.migrationExists path)
  | none =>
    match ← FileStore.makeDirs dir with
    | .error e => return .error (.io e)
    | .ok () => createAll dir [] files

end Write

end MigrationFile

end TableShift
