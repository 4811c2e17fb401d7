import TableShift.Store.Tree

/-! # What a tree holds at each place

A tree is seen through its places: at each there is nothing, a directory or a file with
its text. Following a path depends on nothing else, and each operation on a tree changes
what is at one place. A path that leads to an entry of a directory goes on to do so as
long as the directories stay.
-/

namespace TableShift

/-- What can be at a place. -/
inductive Entry where
  | directory
  | file (text : String)
  deriving Repr, DecidableEq

namespace Node

def entry : Node → Entry
  | file text => .file text
  | directory _ => .directory

/-- What is at each place below a node. -/
def view (root : Node) (place : Location) : Option Entry :=
  (root.at? place).map entry

theorem at?_append (node : Node) (place more : Location) :
    node.at? (place ++ more) = (node.at? place).bind (·.at? more) := by
  induction place generalizing node with
  | nil => rfl
  | cons name place ih =>
      rw [List.cons_append, at?, at?, Option.bind_assoc]
      congr 1
      funext child
      exact ih child

theorem view_append_singleton {root node : Node} {place : Location}
    (h : root.at? place = some node) (name : String) :
    root.view (place ++ [name]) = (node.child? name).map entry := by
  rw [view, at?_append, h, Option.bind_some, at?]
  cases node.child? name <;> rfl

theorem view_eq_directory_iff {root : Node} {place : Location} :
    root.view place = some .directory ↔ ∃ entries, root.at? place = some (.directory entries) := by
  unfold view
  cases root.at? place with
  | none => simp
  | some node => cases node <;> simp [entry]

/-- Nothing is below what stands at a place. -/
def Leaf (node : Option Node) : Prop :=
  ∀ name, node.bind (·.child? name) = none

theorem Leaf.at?_cons {node : Option Node} (h : Leaf node) (name : String) (place : Location) :
    node.bind (·.at? (name :: place)) = none := by
  cases node with
  | none => rfl
  | some node =>
      have absent : node.child? name = none := h name
      simp [at?, absent]

theorem view_directory_cons (entries : List (String × Node)) (name : String) (place : Location) :
    (directory entries).view (name :: place) =
      ((entries.lookup name).bind (·.at? place)).map entry := rfl

/-- Changing what is at a place changes nothing else, if nothing was below it and nothing
    is after. -/
theorem view_alter {root : Node} {dir : Location} {entries : List (String × Node)}
    (h : root.at? dir = some (.directory entries)) (name : String)
    (change : Option Node → Option Node) (before : Leaf (entries.lookup name))
    (after : Leaf (change (entries.lookup name))) :
    ∃ changed, alter change (dir ++ [name]) (some root) = some changed ∧
      ∀ place, changed.view place =
        if place = dir ++ [name] then (change (entries.lookup name)).map entry
        else root.view place := by
  induction dir generalizing root with
  | nil =>
      cases Option.some.inj h
      refine ⟨.directory (setEntry name (change (entries.lookup name)) entries), rfl, ?_⟩
      intro place
      cases place with
      | nil => rfl
      | cons other rest =>
          rw [view_directory_cons, view_directory_cons, lookup_setEntry]
          by_cases same : other = name
          · subst same
            cases rest with
            | nil => cases change (entries.lookup other) <;> simp [at?]
            | cons next rest => simp [after.at?_cons, before.at?_cons]
          · simp [same]
  | cons first dir ih =>
      cases root with
      | file text => simp [at?, child?] at h
      | directory children =>
          obtain ⟨child, found, below⟩ := Option.bind_eq_some_iff.mp h
          obtain ⟨changed, altered, seen⟩ := ih below
          have found : children.lookup first = some child := found
          refine ⟨.directory (setEntry first (some changed) children), ?_, ?_⟩
          · rw [List.cons_append, alter, found, altered]
          · intro place
            cases place with
            | nil => rfl
            | cons other rest =>
                rw [view_directory_cons, view_directory_cons, lookup_setEntry]
                by_cases same : other = first
                · subst same
                  have here := seen rest
                  simp only [view] at here
                  simp [found, here]
                · simp [same]

theorem leaf_none : Leaf none := fun _ => rfl

theorem leaf_file (text : String) : Leaf (some (.file text)) := fun _ => rfl

theorem leaf_directory_nil : Leaf (some (.directory [])) := fun _ => rfl

theorem view_insert {root : Node} {dir : Location} (h : root.view dir = some .directory)
    {name : String} (vacant : root.view (dir ++ [name]) = none) {node : Node}
    (leaf : Leaf (some node)) (place : Location) :
    (root.insert (dir ++ [name]) node).view place =
      if place = dir ++ [name] then some node.entry else root.view place := by
  obtain ⟨entries, stands⟩ := view_eq_directory_iff.mp h
  have absent : entries.lookup name = none := by
    simpa [view_append_singleton stands, child?] using vacant
  obtain ⟨changed, altered, seen⟩ :=
    view_alter stands name (fun _ => some node) (absent ▸ leaf_none) leaf
  rw [insert, altered, Option.getD_some, seen]
  rfl

theorem view_erase {root : Node} {dir : Location} (h : root.view dir = some .directory)
    {name text : String} (there : root.view (dir ++ [name]) = some (.file text))
    (place : Location) :
    (root.erase (dir ++ [name])).view place =
      if place = dir ++ [name] then none else root.view place := by
  obtain ⟨entries, stands⟩ := view_eq_directory_iff.mp h
  have found : entries.lookup name = some (.file text) := by
    rw [view_append_singleton stands, Option.map_eq_some_iff] at there
    obtain ⟨node, found, shown⟩ := there
    cases node with
    | file other =>
        cases shown
        exact found
    | directory children => cases shown
  obtain ⟨changed, altered, seen⟩ :=
    view_alter stands name (fun _ => none) (found ▸ leaf_file text) leaf_none
  rw [erase, altered, Option.getD_some, seen]
  rfl

end Node

/-! ## Following names from place to place -/

/-- What is at each place. -/
abbrev View := Location → Option Entry

namespace View

/-- The place that a name leads to from a place. -/
def step (v : View) (place : Location) (name : String) : Except IoError Location :=
  match v place with
  | some .directory =>
    if name = ".." then .ok place.dropLast
    else if isTooLong name then .error .nameTooLong
    else if (v (place ++ [name])).isSome then .ok (place ++ [name])
    else .error .notFound
  | _ => .error .notDirectory

/-- The place that names lead to, one after the other. -/
def walk (v : View) (place : Location) : List String → Except IoError Location
  | [] => .ok place
  | name :: names =>
    match v.step place name with
    | .ok next => v.walk next names
    | .error e => .error e

theorem walk_append (v : View) (place : Location) (names more : List String) :
    v.walk place (names ++ more) =
      match v.walk place names with
      | .ok next => v.walk next more
      | .error e => .error e := by
  induction names generalizing place with
  | nil => rfl
  | cons name names ih =>
      simp only [List.cons_append, walk]
      cases v.step place name with
      | error e => rfl
      | ok next => exact ih next

theorem directory_of_step {v : View} {place next : Location} {name : String}
    (h : v.step place name = .ok next) : v place = some .directory := by
  unfold step at h
  split at h
  · assumption
  · cases h

theorem directory_of_walk {v : View} {place last : Location} {names : List String}
    (h : v.walk place names = .ok last) (ends : v last = some .directory) :
    v place = some .directory := by
  cases names with
  | nil =>
      cases h
      exact ends
  | cons name names =>
      rw [walk] at h
      split at h
      · exact directory_of_step ‹_›
      · cases h

/-- Names that lead to a directory go on to do so while the directories stay. -/
theorem walk_of_directories {v w : View}
    (stay : ∀ place, v place = some .directory → w place = some .directory)
    {place last : Location} {names : List String} (h : v.walk place names = .ok last)
    (ends : v last = some .directory) : w.walk place names = .ok last := by
  induction names generalizing place with
  | nil => exact h
  | cons name names ih =>
      rw [walk] at h ⊢
      split at h
      · rename_i next step
        have here := directory_of_step step
        have there := directory_of_walk h ends
        have same : w.step place name = .ok next := by
          simp only [View.step, here, stay place here] at step ⊢
          split at step
          · rename_i up
            simpa [up] using step
          · rename_i down
            split at step
            · cases step
            · rename_i short
              split at step
              · cases step
                simp [down, short, stay _ there]
              · cases step
        rw [same]
        exact ih h
      · cases h

end View

namespace Spot

/-- The directories above a node lead from a root to it. -/
def Reached (root : Node) : Node → List (String × Node) → Prop
  | node, [] => node = root
  | node, (name, parent) :: above => parent.child? name = some node ∧ Reached root parent above

/-- A spot is one of a tree: its names lead to it from the root. -/
def StandsIn (root : Node) (spot : Spot) : Prop :=
  Reached root spot.node spot.above

theorem StandsIn.at?_location {root : Node} {spot : Spot} (h : spot.StandsIn root) :
    root.at? spot.location = some spot.node := by
  obtain ⟨node, above⟩ := spot
  induction above generalizing node with
  | nil =>
      cases h
      rfl
  | cons last above ih =>
      obtain ⟨name, parent⟩ := last
      have up : root.at? (above.map Prod.fst).reverse = some parent := ih parent h.2
      rw [location, List.map_cons, List.reverse_cons, Node.at?_append, up]
      simp [Node.at?, h.1]

theorem StandsIn.view_location {root : Node} {spot : Spot} (h : spot.StandsIn root) :
    root.view spot.location = some spot.node.entry := by
  rw [Node.view, h.at?_location, Option.map_some]

/-- Following names by spots and by places comes to the same. -/
inductive Shows (root : Node) : Except IoError Spot → Except IoError Location → Prop where
  | ok {spot : Spot} (stands : spot.StandsIn root) : Shows root (.ok spot) (.ok spot.location)
  | error (e : IoError) : Shows root (.error e) (.error e)

variable {root : Node} {spot : Spot}

theorem StandsIn.leave (h : spot.StandsIn root) : spot.leave.StandsIn root := by
  obtain ⟨node, above⟩ := spot
  cases above with
  | nil => exact h
  | cons last above => exact h.2

theorem location_leave (spot : Spot) : spot.leave.location = spot.location.dropLast := by
  obtain ⟨node, above⟩ := spot
  cases above with
  | nil => rfl
  | cons last above => simp [Spot.leave, location]

theorem StandsIn.step (h : spot.StandsIn root) (name : String) :
    Shows root (spot.step name) (View.step root.view spot.location name) := by
  obtain ⟨node, above⟩ := spot
  have here := h.view_location
  cases node with
  | file text =>
      simp only [Spot.step, entries, View.step, here, Node.entry]
      exact .error _
  | directory children =>
      have below := Node.view_append_singleton h.at?_location name
      simp only [Spot.step, entries, View.step, here, below, Node.entry, Node.child?]
      split
      · rw [← location_leave]
        exact .ok h.leave
      · split
        · exact .error _
        · cases found : children.lookup name with
          | none => exact .error _
          | some node =>
              have stands : StandsIn root ⟨node, (name, .directory children) :: above⟩ :=
                ⟨found, h⟩
              have place : location ⟨node, (name, .directory children) :: above⟩ =
                  location ⟨.directory children, above⟩ ++ [name] := by
                simp [location]
              simp only [Option.map_some, Option.isSome_some, if_true, ← place]
              exact .ok stands

theorem StandsIn.walk (h : spot.StandsIn root) (names : List String) :
    Shows root (spot.walk names) (View.walk root.view spot.location names) := by
  induction names generalizing spot with
  | nil => exact .ok h
  | cons name names ih =>
      rw [Spot.walk, View.walk]
      have step := h.step name
      cases first : spot.step name with
      | error e =>
          rw [first] at step
          generalize View.step root.view spot.location name = shown at step
          cases step
          exact .error e
      | ok next =>
          rw [first] at step
          generalize View.step root.view spot.location name = shown at step
          cases step with
          | ok stands => exact ih stands

theorem Shows.exists_of_ok {found : Except IoError Spot} {place : Location}
    (h : Shows root found (.ok place)) :
    ∃ spot, found = .ok spot ∧ spot.StandsIn root ∧ spot.location = place := by
  cases h with
  | ok stands => exact ⟨_, rfl, stands, rfl⟩

theorem Shows.of_ok {found : Spot} {shown : Except IoError Location}
    (h : Shows root (.ok found) shown) : found.StandsIn root ∧ shown = .ok found.location := by
  cases h with
  | ok stands => exact ⟨stands, rfl⟩

theorem of_walkToDirectory (h : spot.StandsIn root) {names : List String} {dir : Spot}
    (found : spot.walkToDirectory names = .ok dir) :
    dir.StandsIn root ∧ View.walk root.view spot.location names = .ok dir.location ∧
      root.view dir.location = some .directory := by
  unfold walkToDirectory at found
  split at found
  · cases found
  · rename_i last walked
    have shown := h.walk names
    rw [walked] at shown
    obtain ⟨stands, place⟩ := shown.of_ok
    cases node : last.node with
    | file text => simp [entries, node, Except.map] at found
    | directory children =>
        simp only [entries, node, Except.map, Except.ok.injEq] at found
        subst found
        exact ⟨stands, place, by rw [stands.view_location, node, Node.entry]⟩

theorem of_vacancy (h : spot.StandsIn root) {name : String} {place : Location}
    (vacant : spot.vacancy name = .ok place) :
    place = spot.location ++ [name] ∧ name ≠ ".." ∧ isTooLong name = false ∧
      root.view place = none := by
  have shown := h.step name
  unfold vacancy at vacant
  split at vacant
  · cases vacant
  · rename_i absent
    cases vacant
    refine ⟨rfl, ?_⟩
    rw [absent] at shown
    generalize stepped : View.step root.view spot.location name = found at shown
    cases shown
    unfold View.step at stepped
    split at stepped
    · split at stepped
      · cases stepped
      · split at stepped
        · cases stepped
        · split at stepped
          · cases stepped
          · rename_i down short gone
            exact ⟨down, by simpa using short, by simpa using gone⟩
    · cases stepped
  · cases vacant

end Spot

/-! ## Operations on a tree -/

namespace Tree

/-- What a tree holds at each place. -/
def view (t : Tree) : View :=
  t.root.view

/-- The names that lead to where a path starts. -/
def base (t : Tree) (path : String) : List String :=
  if Path.isAbsolute path then [] else t.here

/-- A path leads to the entry of a name in a directory, whether or not it is there. -/
structure Leads (t : Tree) (path : String) (dir : Location) (name : String) : Prop where
  taken : refusal? path = none
  slash : Path.endsInSlash path = false
  dots : Path.endsInDots path = false
  last : (Path.parts path).getLast? = some name
  down : name ≠ ".."
  short : isTooLong name = false
  walked : t.view.walk [] (t.base path ++ (Path.parts path).dropLast) = .ok dir
  directory : t.view dir = some .directory

theorem standsIn_root (t : Tree) : Spot.StandsIn t.root ⟨t.root, []⟩ := rfl

theorem start_shows {t : Tree} {path : String} (taken : refusal? path = none) :
    Spot.Shows t.root (t.start path) (t.view.walk [] (t.base path)) := by
  simp only [start, taken, base]
  split
  · exact .ok t.standsIn_root
  · exact t.standsIn_root.walk t.here

theorem of_start {t : Tree} {path : String} {spot : Spot} (h : t.start path = .ok spot) :
    refusal? path = none ∧ spot.StandsIn t.root ∧
      t.view.walk [] (t.base path) = .ok spot.location := by
  cases taken : refusal? path with
  | some e => simp [start, taken] at h
  | none =>
      have shown := start_shows (t := t) taken
      rw [h] at shown
      exact ⟨rfl, shown.of_ok⟩

/-- Where a new entry goes, by places. -/
theorem of_slot {t : Tree} {path name : String} {dir : Spot} (h : t.slot path = .ok (dir, name)) :
    refusal? path = none ∧ Path.endsInDots path = false ∧
      (Path.parts path).getLast? = some name ∧ dir.StandsIn t.root ∧
      t.view.walk [] (t.base path ++ (Path.parts path).dropLast) = .ok dir.location ∧
      t.view dir.location = some .directory := by
  unfold slot at h
  split at h
  · cases h
  · rename_i start started
    obtain ⟨taken, stands, based⟩ := of_start started
    split at h
    · split at h <;> cases h
    · rename_i last named
      cases dots : Path.endsInDots path with
      | true => simp [dots] at named
      | false =>
          simp only [dots, Bool.false_eq_true, if_false] at named
          cases found : start.walkToDirectory (Path.parts path).dropLast with
          | error e => simp [found, Except.map] at h
          | ok last =>
              simp only [found, Except.map, Except.ok.injEq, Prod.mk.injEq] at h
              obtain ⟨rfl, rfl⟩ := h
              obtain ⟨there, walked, ends⟩ := Spot.of_walkToDirectory stands found
              refine ⟨taken, rfl, named, there, ?_, ends⟩
              rw [View.walk_append, based]
              exact walked

theorem view_of_makeDir {t made : Tree} {path : String} (h : t.makeDir path = .ok made) :
    made.here = t.here ∧ ∃ place, t.view place = none ∧
      ∀ q, made.view q = if q = place then some .directory else t.view q := by
  unfold makeDir at h
  split at h
  · cases h
  · rename_i dir name slotted
    obtain ⟨_, _, _, stands, _, ends⟩ := of_slot slotted
    cases vacant : dir.vacancy name with
    | error e => simp [vacant, Except.map] at h
    | ok place =>
        obtain ⟨rfl, _, _, absent⟩ := Spot.of_vacancy stands vacant
        simp only [vacant, Except.map, Except.ok.injEq] at h
        subst h
        exact ⟨rfl, dir.location ++ [name], absent, Node.view_insert ends absent Node.leaf_directory_nil⟩

theorem view_of_create {t written : Tree} {path text : String}
    (h : t.create path text = .ok written) :
    written.here = t.here ∧ ∃ dir name, t.Leads path dir name ∧ t.view (dir ++ [name]) = none ∧
      ∀ q, written.view q = if q = dir ++ [name] then some (.file text) else t.view q := by
  unfold create at h
  split at h
  · cases h
  · rename_i dir name slotted
    obtain ⟨taken, dots, last, stands, walked, ends⟩ := of_slot slotted
    split at h
    · cases h
    · rename_i slash
      cases vacant : dir.vacancy name with
      | error e => simp [vacant, Except.map] at h
      | ok place =>
          obtain ⟨rfl, down, short, absent⟩ := Spot.of_vacancy stands vacant
          have slash : Path.endsInSlash path = false := by simpa using slash
          simp only [vacant, Except.map, Except.ok.injEq] at h
          subst h
          exact ⟨rfl, dir.location, name, ⟨taken, slash, dots, last, down, short, walked, ends⟩, absent,
            Node.view_insert ends absent (Node.leaf_file text)⟩

namespace Leads

variable {t : Tree} {path name : String} {dir : Location}

theorem of_directories (h : t.Leads path dir name) {other : Tree} (here : other.here = t.here)
    (stay : ∀ place, t.view place = some .directory → other.view place = some .directory) :
    other.Leads path dir name := by
  refine { h with walked := ?_, directory := stay dir h.directory }
  rw [show other.base path = t.base path from by rw [base, base, here]]
  exact View.walk_of_directories stay h.walked h.directory

theorem unique (h : t.Leads path dir name) {other : Location} {last : String}
    (g : t.Leads path other last) : other = dir ∧ last = name :=
  ⟨Except.ok.inj (g.walked.symm.trans h.walked), Option.some.inj (g.last.symm.trans h.last)⟩

theorem exists_start (h : t.Leads path dir name) :
    ∃ start, t.start path = .ok start ∧ start.StandsIn t.root ∧
      t.view.walk start.location (Path.parts path).dropLast = .ok dir := by
  have walked := h.walked
  rw [View.walk_append] at walked
  split at walked
  · rename_i place based
    have started := start_shows (t := t) h.taken
    rw [based] at started
    obtain ⟨start, found, stands, rfl⟩ := started.exists_of_ok
    exact ⟨start, found, stands, walked⟩
  · cases walked

theorem resolve_shows (h : t.Leads path dir name) :
    Spot.Shows t.root (t.resolve path) (t.view.step dir name) := by
  obtain ⟨start, found, stands, walked⟩ := h.exists_start
  have names : Path.parts path = (Path.parts path).dropLast ++ [name] := by
    obtain ⟨front, parts⟩ := List.getLast?_eq_some_iff.mp h.last
    rw [parts, List.dropLast_concat]
  have step : t.view.walk start.location (Path.parts path) = t.view.step dir name := by
    rw [names, View.walk_append, walked]
    simp only [View.walk]
    cases t.view.step dir name <;> rfl
  have plain : Path.endsInDirectory path = false := by
    simp [Path.endsInDirectory, h.slash, h.dots]
  rw [resolve, found]
  simp only [plain, Bool.false_eq_true, if_false]
  rw [← step]
  exact stands.walk (Path.parts path)

theorem step_eq (h : t.Leads path dir name) :
    t.view.step dir name =
      if (t.view (dir ++ [name])).isSome then .ok (dir ++ [name]) else .error .notFound := by
  simp [View.step, h.directory, h.down, h.short]

/-- Where a file is, its path leads to it. -/
theorem exists_spot (h : t.Leads path dir name) {text : String}
    (there : t.view (dir ++ [name]) = some (.file text)) :
    ∃ spot, t.resolve path = .ok spot ∧ spot.node = .file text ∧ spot.location = dir ++ [name] := by
  have shown := h.resolve_shows
  rw [h.step_eq, there] at shown
  obtain ⟨spot, found, stands, place⟩ := shown.exists_of_ok
  have seen : t.view spot.location = some spot.node.entry := stands.view_location
  refine ⟨spot, found, ?_, place⟩
  rw [place, there, Option.some.injEq] at seen
  cases node : spot.node with
  | file other =>
      rw [node, Node.entry, Entry.file.injEq] at seen
      rw [seen]
  | directory children =>
      rw [node, Node.entry] at seen
      cases seen

theorem read_eq (h : t.Leads path dir name) {text : String}
    (there : t.view (dir ++ [name]) = some (.file text)) : t.read path = .ok text := by
  obtain ⟨spot, found, node, _⟩ := h.exists_spot there
  simp [read, found, node]

theorem view_remove (h : t.Leads path dir name)
    (noDirectory : t.view (dir ++ [name]) ≠ some .directory) :
    (t.remove path).here = t.here ∧
      ∀ q, (t.remove path).view q = if q = dir ++ [name] then none else t.view q := by
  cases there : t.view (dir ++ [name]) with
  | none =>
      have shown := h.resolve_shows
      rw [h.step_eq, there] at shown
      have absent : t.remove path = t := by
        unfold remove
        generalize t.resolve path = found at shown ⊢
        cases shown
        rfl
      rw [absent]
      refine ⟨rfl, fun q => ?_⟩
      split
      · rename_i same
        rw [same, there]
      · rfl
  | some entry =>
      cases entry with
      | directory => exact absurd there noDirectory
      | file text =>
          obtain ⟨spot, found, node, place⟩ := h.exists_spot there
          have removed : t.remove path = { t with root := t.root.erase (dir ++ [name]) } := by
            simp [remove, found, node, place]
          rw [removed]
          exact ⟨rfl, Node.view_erase h.directory there⟩

/-- The directory and the name that a path leads to are its slot. -/
theorem exists_slot (h : t.Leads path dir name) :
    ∃ spot, t.slot path = .ok (spot, name) ∧ spot.StandsIn t.root ∧ spot.location = dir := by
  obtain ⟨start, found, stands, walked⟩ := h.exists_start
  have shown := stands.walk (Path.parts path).dropLast
  rw [show View.walk t.root.view start.location _ = .ok dir from walked] at shown
  obtain ⟨spot, reached, there, rfl⟩ := shown.exists_of_ok
  have seen := there.view_location
  rw [show t.root.view spot.location = some .directory from h.directory, Option.some.injEq] at seen
  have ends : start.walkToDirectory (Path.parts path).dropLast = .ok spot := by
    cases node : spot.node with
    | file text =>
        rw [node] at seen
        cases seen
    | directory children => simp [Spot.walkToDirectory, reached, Spot.entries, node, Except.map]
  refine ⟨spot, ?_, there, rfl⟩
  simp [slot, found, h.dots, h.last, ends, Except.map]

theorem exists_create (h : t.Leads path dir name) (absent : t.view (dir ++ [name]) = none)
    (text : String) : ∃ written, t.create path text = .ok written := by
  obtain ⟨spot, slotted, stands, rfl⟩ := h.exists_slot
  have gone : spot.step name = .error .notFound := by
    have shown := stands.step name
    have step := h.step_eq
    rw [absent] at step
    rw [show View.step t.root.view spot.location name = .error .notFound from step] at shown
    generalize spot.step name = found at shown
    cases shown
    rfl
  simp [create, slotted, h.slash, Spot.vacancy, gone, Except.map]

end Leads

end Tree

end TableShift
