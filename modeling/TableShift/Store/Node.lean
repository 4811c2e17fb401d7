/-! # Trees of files

Files and directories as values: a directory holds its entries under their names, and
a place in a tree is the list of names that leads to it.
-/

namespace TableShift

/-- A file with its text, or a directory with its entries under their names. -/
inductive Node where
  | file (text : String)
  | directory (entries : List (String × Node))
  deriving Repr, BEq, Inhabited

/-- The names that lead from a node to one below it. -/
abbrev Location := List String

namespace Node

/-- What a directory holds under a name. -/
def child? (name : String) : Node → Option Node
  | file _ => none
  | directory entries => entries.lookup name

/-- What stands at a place below a node. -/
def at? (node : Node) : Location → Option Node
  | [] => some node
  | name :: names => (node.child? name).bind (·.at? names)

/-- Entries with one under a name in place of the old one, or with none there. -/
def setEntry (name : String) (node : Option Node) (entries : List (String × Node)) :
    List (String × Node) :=
  let others := entries.filter (·.1 != name)
  match node with
  | some node => (name, node) :: others
  | none => others

theorem lookup_filter_ne {α : Type} (name other : String) (entries : List (String × α)) :
    (entries.filter (·.1 != name)).lookup other =
      if other = name then none else entries.lookup other := by
  induction entries with
  | nil => simp
  | cons entry rest ih =>
    obtain ⟨key, value⟩ := entry
    by_cases h : key = name
    · by_cases g : other = name
      · simpa [h, g] using ih
      · simpa [h, g, List.lookup_cons, beq_false_of_ne g] using ih
    · by_cases g : other = key
      · simp [g, h]
      · simpa [h, List.lookup_cons, beq_false_of_ne g] using ih

/-- Setting an entry changes what stands under its name, and nothing else. -/
theorem lookup_setEntry (name other : String) (node : Option Node)
    (entries : List (String × Node)) :
    (setEntry name node entries).lookup other =
      if other = name then node else entries.lookup other := by
  cases node with
  | none => exact lookup_filter_ne name other entries
  | some node =>
    by_cases h : other = name
    · simp [setEntry, h]
    · simp [setEntry, List.lookup_cons, beq_false_of_ne h, lookup_filter_ne, h]

/-- Changes what stands at a place, where the directory that it is in is there. -/
def alter (change : Option Node → Option Node) : Location → Option Node → Option Node
  | [], node => change node
  | name :: names, some (.directory entries) =>
    some (.directory (setEntry name (alter change names (entries.lookup name)) entries))
  | _ :: _, node => node

/-- Puts a node at a place, instead of what was there. -/
def insert (root : Node) (place : Location) (node : Node) : Node :=
  (alter (fun _ => some node) place (some root)).getD root

/-- Takes away what stands at a place. -/
def erase (root : Node) (place : Location) : Node :=
  (alter (fun _ => none) place (some root)).getD root

mutual

/-- The written path of a node and of all below it, with the text of each file. The
    paths of directories end in a slash. -/
def listing (path : String) : Node → List (String × Option String)
  | file text => [(path, some text)]
  | directory entries => (path ++ "/", none) :: entryListing (path ++ "/") entries

/-- The written paths of entries and of all below them, behind the path of their
    directory. -/
def entryListing (path : String) : List (String × Node) → List (String × Option String)
  | [] => []
  | (name, node) :: entries => listing (path ++ name) node ++ entryListing path entries

end

end Node

end TableShift
