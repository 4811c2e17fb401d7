import TableShift.Store.FileStore
import TableShift.Store.Node

/-! # Spots in a tree

Where one stands after following some names through a tree. The directories above are
kept, so that two dots lead back.
-/

namespace TableShift

/-- The most bytes a name may have. -/
def maxName : Nat := 255

/-- Whether a name is longer than the system takes. -/
def isTooLong (name : String) : Bool :=
  maxName < byteLength name.toList

/-- A node, with the directories above it and the names they lead on by, the nearest
    first. -/
structure Spot where
  node : Node
  above : List (String × Node) := []
  deriving Repr, BEq

namespace Spot

/-- The place of a spot in its tree. -/
def location (spot : Spot) : Location :=
  (spot.above.map Prod.fst).reverse

/-- The directory above a spot. The root is above itself. -/
def leave (spot : Spot) : Spot :=
  match spot.above with
  | [] => spot
  | (_, node) :: above => ⟨node, above⟩

/-- A spot that is a directory, with its entries. -/
def entries (spot : Spot) : Except IoError (List (String × Node)) :=
  match spot.node with
  | .directory entries => .ok entries
  | .file _ => .error .notDirectory

/-- Follows a name from a directory. -/
def step (spot : Spot) (name : String) : Except IoError Spot :=
  match spot.entries with
  | .error e => .error e
  | .ok entries =>
    if name = ".." then .ok spot.leave
    else if isTooLong name then .error .nameTooLong
    else
      match entries.lookup name with
      | some node => .ok ⟨node, (name, spot.node) :: spot.above⟩
      | none => .error .notFound

/-- Follows names, all but the last of which lead to directories. -/
def walk (spot : Spot) : List String → Except IoError Spot
  | [] => .ok spot
  | name :: names =>
    match spot.step name with
    | .ok next => next.walk names
    | .error e => .error e

def walkToDirectory (spot : Spot) (names : List String) : Except IoError Spot :=
  match spot.walk names with
  | .error e => .error e
  | .ok dir => dir.entries.map fun _ => dir

/-- The place of a new entry of a directory. -/
def vacancy (dir : Spot) (name : String) : Except IoError Location :=
  match dir.step name with
  | .ok _ => .error .alreadyExists
  | .error .notFound => .ok (dir.location ++ [name])
  | .error e => .error e

end Spot

end TableShift
