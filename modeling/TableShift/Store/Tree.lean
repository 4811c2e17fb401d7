import TableShift.Store.Spot

/-! # Stores in memory

A tree of files with a working directory, as a store. Paths are followed as the system
follows them: one through two dots needs the directory it leaves.
-/

namespace TableShift

/-- All files, and the directory where paths start that are not absolute. -/
structure Tree where
  root : Node := .directory []
  here : Location := []
  deriving Repr, BEq

namespace Tree

/-- The most bytes a path may have. -/
def maxPath : Nat := 4095

/-- Why a path cannot be followed, whatever the tree. -/
def refusal? (path : String) : Option IoError :=
  if path.toList.contains '\x00' then some .nulInName
  else if path.isEmpty then some .notFound
  else if maxPath < byteLength path.toList then some .nameTooLong
  else none

/-- Where a path starts. -/
def start (t : Tree) (path : String) : Except IoError Spot :=
  match refusal? path with
  | some e => .error e
  | none => if Path.isAbsolute path then .ok ⟨t.root, []⟩ else Spot.walk ⟨t.root, []⟩ t.here

/-- The spot that a path leads to. -/
def resolve (t : Tree) (path : String) : Except IoError Spot :=
  match t.start path with
  | .error e => .error e
  | .ok start =>
    if Path.endsInDirectory path then start.walkToDirectory (Path.parts path)
    else start.walk (Path.parts path)

def read (t : Tree) (path : String) : Except IoError String :=
  match t.resolve path with
  | .error e => .error e
  | .ok spot =>
    match spot.node with
    | .file text => .ok text
    | .directory _ => .error .isDirectory

/-- What a path leads to, if to anything. -/
def kind? (t : Tree) (path : String) : Option EntryKind :=
  match t.resolve path with
  | .error _ => none
  | .ok spot =>
    match spot.node with
    | .file _ => some .file
    | .directory _ => some .directory

/-- The directory of a new entry at a path, and its name. A path that ends in dots, or
    has no parts at all, is that of a directory that is there, if of one. -/
def slot (t : Tree) (path : String) : Except IoError (Spot × String) :=
  match t.start path with
  | .error e => .error e
  | .ok start =>
    match if Path.endsInDots path then none else (Path.parts path).getLast? with
    | none =>
      match start.walkToDirectory (Path.parts path) with
      | .ok _ => .error .alreadyExists
      | .error e => .error e
    | some name => (start.walkToDirectory (Path.parts path).dropLast).map (·, name)

/-- Makes a directory in one that is there. -/
def makeDir (t : Tree) (path : String) : Except IoError Tree :=
  match t.slot path with
  | .error e => .error e
  | .ok (dir, name) =>
    (dir.vacancy name).map fun place => { t with root := t.root.insert place (.directory []) }

/-- Writes a file that was not there. Its path does not end in a slash. -/
def create (t : Tree) (path text : String) : Except IoError Tree :=
  match t.slot path with
  | .error e => .error e
  | .ok (dir, name) =>
    if Path.endsInSlash path then .error .isDirectory
    else (dir.vacancy name).map fun place => { t with root := t.root.insert place (.file text) }

/-- Removes a file, if it is there. -/
def remove (t : Tree) (path : String) : Tree :=
  match t.resolve path with
  | .error _ => t
  | .ok spot =>
    match spot.node with
    | .file _ => { t with root := t.root.erase spot.location }
    | .directory _ => t

/-- Every path below the working directory, in order, with the text of each file. -/
def listing (t : Tree) : List (String × Option String) :=
  match t.root.at? t.here with
  | some (.directory entries) =>
    (Node.entryListing "" entries).mergeSort fun a b => a.1 ≤ b.1
  | _ => []

/-- Applies a change to the tree of a state, if it succeeds. -/
def change (f : Tree → Except IoError Tree) : StateM Tree (Except IoError Unit) :=
  fun t =>
    match f t with
    | .ok t' => (.ok (), t')
    | .error e => (.error e, t)

end Tree

instance : FileStore (StateM Tree) where
  read path := fun t => (t.read path, t)
  kind? path := fun t => (t.kind? path, t)
  makeDir path := Tree.change (·.makeDir path)
  create path text := Tree.change (·.create path text)
  remove path := fun t => ((), t.remove path)

namespace Tree

/-- A tree with a directory at a path, and those above it. -/
def withDir (t : Tree) (path : String) : Tree :=
  ((FileStore.makeDirs path : StateM Tree (Except IoError Unit)).run t).2

/-- A tree with a file at a path, and the directories above it. -/
def withFile (t : Tree) (path text : String) : Tree :=
  let above : StateM Tree (Except IoError Unit) :=
    FileStore.makeDirsAlong (Path.ancestors path).tail
  let t := (above.run t).2
  match t.slot path with
  | .ok (dir, name) => { t with root := t.root.insert (dir.location ++ [name]) (.file text) }
  | .error _ => t

end Tree

end TableShift
