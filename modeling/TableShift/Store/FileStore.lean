import TableShift.Store.Path

/-! # File stores

The operations on files that migrations need, over any kind of store. A program
written with them runs on the disk, and on a tree of files held in memory.
-/

namespace TableShift

/-- Why an operation on files fails. -/
inductive IoError where
  | notFound
  | alreadyExists
  | notDirectory
  | isDirectory
  | nameTooLong
  | nulInName
  | other (message : String)
  deriving Repr, DecidableEq, BEq

def IoError.message : IoError → String
  | notFound => "No such file or directory (os error 2)"
  | alreadyExists => "File exists (os error 17)"
  | notDirectory => "Not a directory (os error 20)"
  | isDirectory => "Is a directory (os error 21)"
  | nameTooLong => "File name too long (os error 36)"
  | nulInName => "file name contained an unexpected NUL byte"
  | other message => message

inductive EntryKind where
  | file
  | directory
  deriving Repr, DecidableEq, BEq

/-- A store of files, with paths as texts. -/
class FileStore (m : Type → Type) where
  /-- The text of a file. -/
  read : String → m (Except IoError String)
  /-- What a path leads to, if to anything. -/
  kind? : String → m (Option EntryKind)
  /-- Makes a directory in one that is there. -/
  makeDir : String → m (Except IoError Unit)
  /-- Writes a file that was not there. -/
  create : String → String → m (Except IoError Unit)
  /-- Removes a file. -/
  remove : String → m Unit

namespace FileStore

variable {m : Type → Type} [Monad m] [FileStore m]

/-- Makes a directory, unless it is there. -/
def ensureDir (path : String) : m (Except IoError Unit) := do
  match ← makeDir path with
  | .ok () => return .ok ()
  | .error e => return if (← kind? path) = some .directory then .ok () else .error e

/-- Makes the first directory of a list, each of which is in the next. The others are
    made only where they are missing, and stay if the first cannot be made. -/
def makeDirsAlong : List String → m (Except IoError Unit)
  | [] => return .ok ()
  | path :: above => do
    match ← makeDir path with
    | .ok () => return .ok ()
    | .error .notFound =>
      match ← makeDirsAlong above with
      | .ok () => ensureDir path
      | .error e => return .error e
    | .error e => return if (← kind? path) = some .directory then .ok () else .error e

/-- Makes a directory and those above it, where they are missing. -/
def makeDirs (path : String) : m (Except IoError Unit) :=
  makeDirsAlong (Path.ancestors path)

end FileStore

end TableShift
