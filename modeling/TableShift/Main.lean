import Std.Time.Zoned
import TableShift.Cli.Run

/-! # The program

The outer layer: files on the disk, the environment and the clock of the system,
and the two outputs.
-/

namespace TableShift

/-- The cause that the system gives a number, which some of its calls negate. -/
def IoError.ofNumber (code : UInt32) (details : String) : IoError :=
  match min code.toNat (UInt32.size - code.toNat) with
  | 2 => .notFound
  | 17 => .alreadyExists
  | 20 => .notDirectory
  | 21 => .isDirectory
  | 36 => .nameTooLong
  | number => .other (details ++ " (os error " ++ toString number ++ ")")

/-- The cause of a failure of the system. -/
def IoError.ofSystem : IO.Error → IoError
  | .alreadyExists _ code details | .noFileOrDirectory _ code details
  | .permissionDenied _ code details | .resourceExhausted _ code details
  | .invalidArgument _ code details | .inappropriateType _ code details
  | .noSuchThing _ code details | .interrupted _ code details
  | .otherError code details | .resourceBusy code details
  | .resourceVanished code details | .unsupportedOperation code details
  | .hardwareFault code details | .unsatisfiedConstraints code details
  | .illegalOperation code details | .protocolError code details
  | .timeExpired code details => .ofNumber code details
  | .unexpectedEof => .other "unexpected end of file"
  | .userError message => .other message

namespace Disk

/-- Runs an action on a path, which the system takes only without a zero character. -/
def attempt {α : Type} (path : String) (action : IO α) : IO (Except IoError α) := do
  if path.toList.contains '\x00' then return .error .nulInName
  match ← action.toBaseIO with
  | .ok result => return .ok result
  | .error e => return .error (.ofSystem e)

def read (path : String) : IO (Except IoError String) := do
  match ← attempt path (IO.FS.readBinFile path) with
  | .error e => return .error e
  | .ok bytes =>
    match String.fromUTF8? bytes with
    | some text => return .ok text
    | none => return .error (.other "stream did not contain valid UTF-8")

/-- What a path leads to, if it can be opened: only a file can be read from. -/
def kind? (path : String) : IO (Option EntryKind) := do
  match ← attempt path (IO.FS.Handle.mk path .read) with
  | .error _ => return none
  | .ok handle =>
    match ← attempt path (handle.read 1) with
    | .ok _ => return some .file
    | .error _ => return some .directory

/-- Writes a file that was not there. A file that is written in part is removed. -/
def create (path text : String) : IO (Except IoError Unit) := do
  match ← attempt path (IO.FS.Handle.mk path .writeNew) with
  | .error e => return .error e
  | .ok handle =>
    match ← attempt path (do handle.putStr text; handle.flush) with
    | .ok () => return .ok ()
    | .error e =>
      discard (attempt path (IO.FS.removeFile path))
      return .error e

end Disk

instance : FileStore IO where
  read := Disk.read
  kind? := Disk.kind?
  makeDir path := Disk.attempt path (IO.FS.createDir path)
  create := Disk.create
  remove path := discard (Disk.attempt path (IO.FS.removeFile path))

def Stamp.now : IO Stamp := do
  let now ← Std.Time.PlainDateTime.now
  return {
    year := now.date.year.toInt
    month := now.date.month.toNat
    day := now.date.day.toNat
    hour := now.time.hour.toNat
    minute := now.time.minute.toNat
    second := now.time.second.toNat }

/-- The directory of the user's configuration files: the one that is set, if it is
    absolute, else the usual one in the home directory. -/
def userConfigDir : IO (Option String) := do
  match (← IO.getEnv "XDG_CONFIG_HOME").filter Path.isAbsolute with
  | some dir => return some dir
  | none => return ((← IO.getEnv "HOME").filter (!·.isEmpty)).map (Path.join · ".config")

/-- What the system tells about a run. -/
def Environment.current : IO Environment :=
  return {
    now := ← Stamp.now
    schema := ← IO.getEnv "SQL2BLUEPRINT_SCHEMA"
    configDir := ← userConfigDir }

end TableShift

open TableShift in
/-- Runs the command line, and says what it reports. -/
def main (arguments : List String) : IO UInt32 := do
  let report : Report ← runProgram (← Environment.current) arguments
  IO.print report.out
  IO.eprint report.err
  return report.exit.toUInt32
