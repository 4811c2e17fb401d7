import TableShift.Text.Ascii

/-! # Paths

Paths are texts with slashes between their parts. Joining keeps the written form;
the parts that name something leave out empty ones and single dots.
-/

namespace TableShift.Path

/-- Joins a directory and a name below it. A name that starts with a slash stands for
    itself. -/
def join (dir name : String) : String :=
  if name.toList.head? = some '/' then name
  else if dir.isEmpty ∨ dir.toList.getLast? = some '/' then dir ++ name
  else dir ++ "/" ++ name

/-- The texts between the slashes. -/
def pieces : List Char → List (List Char)
  | [] => [[]]
  | c :: cs =>
    if c = '/' then [] :: pieces cs
    else
      match pieces cs with
      | [] => [[c]]
      | piece :: rest => (c :: piece) :: rest

/-- Whether a piece names nothing: an empty one, or a single dot. -/
def isIdle (piece : List Char) : Bool :=
  piece.isEmpty || piece == ['.']

/-- The parts of a path that name something, two dots included. -/
def parts (path : String) : List String :=
  ((pieces path.toList).filter (!isIdle ·)).map String.ofList

/-- Whether a path ends in a slash. -/
def endsInSlash (path : String) : Bool :=
  path.toList.getLast? == some '/'

/-- Whether the last piece of a path, slashes behind it apart, is one or two dots. -/
def endsInDots (path : String) : Bool :=
  match ((pieces path.toList).filter (!·.isEmpty)).getLast? with
  | some piece => piece == ['.'] || piece == ['.', '.']
  | none => false

/-- Whether a path can only be that of a directory. -/
def endsInDirectory (path : String) : Bool :=
  endsInSlash path || endsInDots path

/-- Whether a path starts at the root of all files. -/
def isAbsolute (path : String) : Bool :=
  path.toList.head? == some '/'

/-- The paths that go on from a path by one part after the other. -/
def extensions (path : String) : List String → List String
  | [] => []
  | part :: rest => join path part :: extensions (join path part) rest

/-- A path and those of the directories above it, the nearest first. The directory
    where paths start is not among them, and the empty path names none. -/
def ancestors (path : String) : List String :=
  if path.isEmpty then []
  else path :: (extensions (if isAbsolute path then "/" else "") (parts path).dropLast).reverse

/-- The last part of a path, unless it is two dots. -/
def fileName? (path : String) : Option String :=
  match (parts path).getLast? with
  | some name => if name = ".." then none else some name
  | none => none

/-- A file name up to its last dot. A dot in front is part of the name. -/
def stem (name : String) : String :=
  match name.toList.reverse.dropWhile (· != '.') with
  | [] => name
  | _ :: before => if before.isEmpty then name else String.ofList before.reverse

/-- The stem of the last part of a path, empty if it has none. -/
def fileStem (path : String) : String :=
  match fileName? path with
  | some name => stem name
  | none => ""

end TableShift.Path
