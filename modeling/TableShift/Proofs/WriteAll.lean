import Mathlib.Data.List.Forall2
import TableShift.Migration.File
import TableShift.Proofs.TreeViews

/-! # All files or none

Files are written one by one, and those written before a failure are removed again. What
one more file adds is told by the places of a tree, and so is what removing takes away:
whatever stops the writing, the files are those that were there. Directories that were
made on the way stay.
-/

namespace TableShift

/-- The text of the file at a place, if one is there. -/
def Tree.fileAt? (t : Tree) (place : Location) : Option String :=
  match t.view place with
  | some (.file text) => some text
  | _ => none

namespace Tree

/-- A path leads to a place where nothing is. -/
def Vacant (t : Tree) (path : String) (place : Location) : Prop :=
  ∃ dir name, t.Leads path dir name ∧ place = dir ++ [name] ∧ t.view place = none

theorem fileAt?_eq_some_iff {t : Tree} {place : Location} {text : String} :
    t.fileAt? place = some text ↔ t.view place = some (.file text) := by
  unfold fileAt?
  split <;> simp_all

/-! ## Directories -/

theorem fileAt?_of_makeDir {t made : Tree} {path : String} (h : t.makeDir path = .ok made)
    (q : Location) : made.fileAt? q = t.fileAt? q := by
  obtain ⟨_, place, absent, seen⟩ := view_of_makeDir h
  by_cases this : q = place
  · subst this
    simp [fileAt?, seen, absent]
  · simp [fileAt?, seen, this]

theorem fileAt?_makeDir_run (t : Tree) (path : String) (q : Location) :
    ((FileStore.makeDir path : StateM Tree (Except IoError Unit)).run t).2.fileAt? q =
      t.fileAt? q := by
  simp only [FileStore.makeDir, change, StateT.run]
  cases made : t.makeDir path with
  | error e => rfl
  | ok next => exact fileAt?_of_makeDir made q

theorem fileAt?_ensureDir_run (t : Tree) (path : String) (q : Location) :
    ((FileStore.ensureDir path : StateM Tree (Except IoError Unit)).run t).2.fileAt? q =
      t.fileAt? q := by
  rw [← fileAt?_makeDir_run t path q]
  simp only [FileStore.ensureDir, StateT.run, bind, StateT.bind]
  rcases (FileStore.makeDir path : StateM Tree (Except IoError Unit)) t with ⟨result, made⟩
  cases result with
  | ok done => rfl
  | error e => rfl

theorem fileAt?_makeDirsAlong_run (t : Tree) (paths : List String) (q : Location) :
    ((FileStore.makeDirsAlong paths : StateM Tree (Except IoError Unit)).run t).2.fileAt? q =
      t.fileAt? q := by
  induction paths generalizing t with
  | nil => rfl
  | cons path above ih =>
      have first := fileAt?_makeDir_run t path q
      simp only [StateT.run] at first ih
      simp only [FileStore.makeDirsAlong, StateT.run, bind, StateT.bind]
      cases made : (FileStore.makeDir path : StateM Tree (Except IoError Unit)) t with
      | mk result next =>
      rw [made] at first
      rw [← first]
      cases result with
      | ok done => rfl
      | error e =>
          cases e with
          | notFound =>
              have higher := ih next
              dsimp only [StateT.bind]
              cases along : (FileStore.makeDirsAlong above :
                  StateM Tree (Except IoError Unit)) next with
              | mk result last =>
              rw [along] at higher
              rw [← higher]
              cases result with
              | ok done => exact fileAt?_ensureDir_run last path q
              | error e => rfl
          | alreadyExists | notDirectory | isDirectory | nameTooLong | nulInName | other => rfl

theorem fileAt?_of_makeDirs {t made : Tree} {path : String} {result : Except IoError Unit}
    (h : (FileStore.makeDirs path : StateM Tree (Except IoError Unit)).run t = (result, made))
    (q : Location) : made.fileAt? q = t.fileAt? q := by
  rw [← fileAt?_makeDirsAlong_run t (Path.ancestors path) q]
  exact congrArg (fun run => run.2.fileAt? q) h.symm

end Tree

namespace MigrationFile

/-! ## One call after the other -/

section Runs

variable (t : Tree)

theorem firstPresent_run (paths : List String) :
    (firstPresent paths : StateM Tree (Option String)).run t =
      (paths.find? fun path => (t.kind? path).isSome, t) := by
  induction paths with
  | nil => rfl
  | cons path paths ih =>
      have step : (firstPresent (path :: paths) : StateM Tree (Option String)).run t =
          if (t.kind? path).isSome then (some path, t)
          else (firstPresent paths : StateM Tree (Option String)).run t := by
        cases seen : (t.kind? path).isSome with
        | true =>
            simp only [firstPresent, FileStore.kind?, bind, StateT.bind, StateT.run, seen, if_true]
            rfl
        | false =>
            simp only [firstPresent, FileStore.kind?, bind, StateT.bind, StateT.run, seen,
              Bool.false_eq_true, if_false]
      rw [step, ih, List.find?_cons]
      cases (t.kind? path).isSome <;> rfl

theorem removeAll_cons_run (path : String) (paths : List String) :
    (removeAll (path :: paths) : StateM Tree Unit).run t =
      (removeAll paths : StateM Tree Unit).run (t.remove path) := rfl

/-- The error of a file that cannot be written. -/
def refused (path : String) : IoError → Error
  | .alreadyExists => .migrationExists path
  | e => .io e

theorem createAll_cons_run (dir : String) (written : List String) (file : MigrationFile)
    (files : List MigrationFile) :
    (createAll dir written (file :: files) : StateM Tree (Except Error (List String))).run t =
      match t.create (Path.join dir file.fileName) file.contents with
      | .ok next =>
        (createAll dir (written ++ [Path.join dir file.fileName]) files :
          StateM Tree (Except Error (List String))).run next
      | .error e =>
        (.error (refused (Path.join dir file.fileName) e),
          ((removeAll written : StateM Tree Unit).run t).2) := by
  have change : (FileStore.create (Path.join dir file.fileName) file.contents :
      StateM Tree (Except IoError Unit)) t =
        match t.create (Path.join dir file.fileName) file.contents with
        | .ok next => (.ok (), next)
        | .error e => (.error e, t) := rfl
  simp only [createAll, StateT.run, bind, StateT.bind, change]
  cases t.create (Path.join dir file.fileName) file.contents with
  | ok next => rfl
  | error e => cases e <;> rfl

theorem writeAll_run (dir : String) (files : List MigrationFile) :
    (writeAll dir files : StateM Tree (Except Error (List String))).run t =
      match (files.map fun file => Path.join dir file.fileName).find?
          fun path => (t.kind? path).isSome with
      | some path => (.error (.migrationExists path), t)
      | none =>
        match (FileStore.makeDirs dir : StateM Tree (Except IoError Unit)).run t with
        | (.error e, made) => (.error (.io e), made)
        | (.ok (), made) =>
          (createAll dir [] files : StateM Tree (Except Error (List String))).run made := by
  have present := firstPresent_run t (files.map fun file => Path.join dir file.fileName)
  simp only [StateT.run] at present
  simp only [writeAll, StateT.run, bind, StateT.bind, present]
  cases (files.map fun file => Path.join dir file.fileName).find?
      fun path => (t.kind? path).isSome with
  | some path => rfl
  | none =>
      dsimp only [StateT.bind]
      rcases (FileStore.makeDirs dir : StateM Tree (Except IoError Unit)) t with ⟨result, made⟩
      cases result with
      | error e => rfl
      | ok done => rfl

/-- What writing files can do: refuse a path at which something is, fail to make the
    directory, or make it and write the files one by one. -/
theorem writeAll_cases (dir : String) (files : List MigrationFile) :
    let out := (writeAll dir files : StateM Tree (Except Error (List String))).run t
    (∃ file ∈ files, (t.kind? (Path.join dir file.fileName)).isSome ∧
      out = (.error (.migrationExists (Path.join dir file.fileName)), t)) ∨
    ((∀ file ∈ files, t.kind? (Path.join dir file.fileName) = none) ∧ ∃ e made,
      (FileStore.makeDirs dir : StateM Tree (Except IoError Unit)).run t = (.error e, made) ∧
      out = (.error (.io e), made)) ∨
    ((∀ file ∈ files, t.kind? (Path.join dir file.fileName) = none) ∧ ∃ made,
      (FileStore.makeDirs dir : StateM Tree (Except IoError Unit)).run t = (.ok (), made) ∧
      out = (createAll dir [] files : StateM Tree (Except Error (List String))).run made) := by
  intro out
  have ran : out = _ := writeAll_run t dir files
  cases present : (files.map fun file => Path.join dir file.fileName).find?
      fun path => (t.kind? path).isSome with
  | some path =>
      rw [present] at ran
      obtain ⟨file, listed, rfl⟩ := List.mem_map.mp (List.mem_of_find?_eq_some present)
      have there := List.find?_some present
      exact .inl ⟨file, listed, there, ran⟩
  | none =>
      have absent : ∀ file ∈ files, t.kind? (Path.join dir file.fileName) = none := by
        intro file listed
        simpa using List.find?_eq_none.mp present _ (List.mem_map_of_mem listed)
      rw [present] at ran
      right
      cases directories : (FileStore.makeDirs dir : StateM Tree (Except IoError Unit)).run t with
      | mk result made =>
          rw [directories] at ran
          cases result with
          | error e => exact .inl ⟨absent, e, made, rfl, ran⟩
          | ok done => exact .inr ⟨absent, made, rfl, ran⟩

end Runs

/-! ## Files that were written -/

/-- A file that was written: its path, the directory and the name that the path leads to,
    and its text. -/
structure Written where
  path : String
  dir : Location
  name : String
  text : String

def Written.place (w : Written) : Location :=
  w.dir ++ [w.name]

/-- A tree in which some files were written since another. -/
structure Since (start t : Tree) (done : List Written) : Prop where
  here : t.here = start.here
  elsewhere : ∀ q, q ∉ done.map Written.place → t.view q = start.view q
  leads : ∀ w ∈ done, t.Leads w.path w.dir w.name
  there : ∀ w ∈ done, t.view w.place = some (.file w.text)
  vacant : ∀ w ∈ done, start.view w.place = none
  distinct : (done.map Written.place).Nodup

namespace Since

variable {start t : Tree} {done : List Written}

theorem refl (start : Tree) : Since start start [] :=
  ⟨rfl, fun _ _ => rfl, by simp, by simp, by simp, List.nodup_nil⟩

theorem create (h : Since start t done) {path text : String} {next : Tree}
    (created : t.create path text = .ok next) :
    ∃ w : Written, w.path = path ∧ w.text = text ∧ t.Leads path w.dir w.name ∧
      Since start next (done ++ [w]) := by
  obtain ⟨here, dir, name, leads, absent, seen⟩ := Tree.view_of_create created
  refine ⟨⟨path, dir, name, text⟩, rfl, rfl, leads, ?_⟩
  have stay : ∀ place, t.view place = some .directory → next.view place = some .directory := by
    intro place directory
    have other : place ≠ dir ++ [name] := by
      rintro rfl
      rw [absent] at directory
      cases directory
    rw [seen, if_neg other, directory]
  have kept : ∀ w ∈ done, w.place ≠ dir ++ [name] := by
    intro w member same
    have old := h.there w member
    rw [same, absent] at old
    cases old
  have fresh : dir ++ [name] ∉ done.map Written.place := by
    intro member
    obtain ⟨w, listed, same⟩ := List.mem_map.mp member
    exact kept w listed same
  refine ⟨here.trans h.here, ?_, ?_, ?_, ?_, ?_⟩
  · intro q other
    rw [List.map_append, List.mem_append, not_or] at other
    rw [seen, if_neg (by simpa [Written.place] using other.2), h.elsewhere q other.1]
  · intro w member
    rcases List.mem_append.mp member with old | new
    · exact (h.leads w old).of_directories here stay
    · cases List.mem_singleton.mp new
      exact leads.of_directories here stay
  · intro w member
    rcases List.mem_append.mp member with old | new
    · rw [seen, if_neg (kept w old), h.there w old]
    · cases List.mem_singleton.mp new
      rw [seen, Written.place, if_pos rfl]
  · intro w member
    rcases List.mem_append.mp member with old | new
    · exact h.vacant w old
    · cases List.mem_singleton.mp new
      rw [Written.place, ← h.elsewhere _ fresh, absent]
  · rw [List.map_append, List.map_singleton, List.nodup_append]
    refine ⟨h.distinct, by simp, ?_⟩
    rintro place member _ new rfl
    rw [List.mem_singleton.mp new] at member
    exact fresh member

theorem fileAt?_kept (h : Since start t done) {place : Location} {text : String}
    (old : start.fileAt? place = some text) : t.fileAt? place = some text := by
  rw [Tree.fileAt?_eq_some_iff] at old ⊢
  rw [h.elsewhere place, old]
  intro member
  obtain ⟨w, listed, rfl⟩ := List.mem_map.mp member
  rw [h.vacant w listed] at old
  cases old

/-- A file is one that was there, or the path of a written one resolves to it. -/
theorem fileAt?_cases (h : Since start t done) {place : Location} {text : String}
    (new : t.fileAt? place = some text) :
    start.fileAt? place = some text ∨
      ∃ w ∈ done, ∃ spot, t.resolve w.path = .ok spot ∧ spot.location = place := by
  rw [Tree.fileAt?_eq_some_iff] at new
  by_cases member : place ∈ done.map Written.place
  · obtain ⟨w, listed, rfl⟩ := List.mem_map.mp member
    obtain ⟨spot, found, _, there⟩ := (h.leads w listed).exists_spot (h.there w listed)
    exact .inr ⟨w, listed, spot, found, there⟩
  · rw [h.elsewhere place member] at new
    exact .inl (Tree.fileAt?_eq_some_iff.mpr new)

end Since

theorem removeAll_view {t : Tree} {done : List Written}
    (leads : ∀ w ∈ done, t.Leads w.path w.dir w.name)
    (noDirectory : ∀ w ∈ done, t.view w.place ≠ some .directory) (q : Location) :
    ((removeAll (done.map Written.path) : StateM Tree Unit).run t).2.view q =
      if q ∈ done.map Written.place then none else t.view q := by
  induction done generalizing t with
  | nil => rfl
  | cons w done ih =>
      rw [List.forall_mem_cons] at leads noDirectory
      obtain ⟨here, seen⟩ := leads.1.view_remove noDirectory.1
      have stay : ∀ place, t.view place = some .directory →
          (t.remove w.path).view place = some .directory := by
        intro place directory
        have other : place ≠ w.dir ++ [w.name] := by
          rintro rfl
          exact noDirectory.1 directory
        rw [seen, if_neg other, directory]
      rw [List.map_cons, removeAll_cons_run, ih]
      · rw [seen]
        by_cases this : q = w.place
        · simp [this, Written.place]
        · simp [this, show q ≠ w.dir ++ [w.name] from this]
      · intro v member
        exact (leads.2 v member).of_directories here stay
      · intro v member directory
        rw [seen] at directory
        split at directory
        · cases directory
        · exact noDirectory.2 v member directory

/-- When the files written since are removed, all is as it was. -/
theorem Since.removeAll {start t : Tree} {done : List Written} (h : Since start t done)
    (q : Location) :
    ((MigrationFile.removeAll (done.map Written.path) : StateM Tree Unit).run t).2.view q =
      start.view q := by
  rw [removeAll_view h.leads (fun w member => by rw [h.there w member]; simp)]
  split
  · rename_i member
    obtain ⟨w, listed, rfl⟩ := List.mem_map.mp member
    exact (h.vacant w listed).symm
  · rename_i other
    exact h.elsewhere q other

/-- Writing files from a tree on: either all are written, or all is as it was. -/
theorem createAll_since {start t : Tree} {done : List Written} (h : Since start t done)
    (dir : String) (files : List MigrationFile) :
    match (createAll dir (done.map Written.path) files :
        StateM Tree (Except Error (List String))).run t with
    | (.ok paths, last) => ∃ more, Since start last (done ++ more) ∧
        paths = (done ++ more).map Written.path ∧
        more.map (fun w => (w.path, w.text)) =
          files.map fun file => (Path.join dir file.fileName, file.contents)
    | (.error _, last) => ∀ q, last.view q = start.view q := by
  induction files generalizing t done with
  | nil => exact ⟨[], by simpa using h, by simp, rfl⟩
  | cons file files ih =>
      rw [createAll_cons_run]
      cases created : t.create (Path.join dir file.fileName) file.contents with
      | error e => exact h.removeAll
      | ok next =>
          obtain ⟨w, path, text, _, since⟩ := h.create created
          have later := ih since
          rw [List.map_append, List.map_singleton, path] at later
          dsimp only
          split at later
          · rename_i ran
            obtain ⟨more, all, paths, listed⟩ := later
            rw [ran]
            refine ⟨w :: more, by simpa using all, by simpa using paths, ?_⟩
            simp [listed, path, text]
          · rename_i ran
            rw [ran]
            exact later

theorem createAll_ok {start t : Tree} {done : List Written} (h : Since start t done)
    (dir : String) {files : List MigrationFile} {places : List Location}
    (vacant : List.Forall₂ (fun file place => start.Vacant (Path.join dir file.fileName) place)
      files places)
    (distinct : (done.map Written.place ++ places).Nodup) :
    ∃ paths, ((createAll dir (done.map Written.path) files :
      StateM Tree (Except Error (List String))).run t).1 = .ok paths := by
  induction vacant generalizing t done with
  | nil => exact ⟨_, rfl⟩
  | @cons file place files places first others ih =>
      obtain ⟨parent, name, leads, rfl, absent⟩ := first
      have stay : ∀ q, start.view q = some .directory → t.view q = some .directory := by
        intro q directory
        rw [h.elsewhere q, directory]
        intro member
        obtain ⟨w, listed, rfl⟩ := List.mem_map.mp member
        rw [h.vacant w listed] at directory
        cases directory
      have fresh : parent ++ [name] ∉ done.map Written.place := fun member =>
        (List.nodup_append.mp distinct).2.2 _ member _ (List.mem_cons_self ..) rfl
      have leads := leads.of_directories h.here stay
      have empty : t.view (parent ++ [name]) = none := (h.elsewhere _ fresh).trans absent
      obtain ⟨next, created⟩ := leads.exists_create empty file.contents
      obtain ⟨w, path, _, led, since⟩ := h.create created
      obtain ⟨sameDir, sameName⟩ := leads.unique led
      have later := ih since (by simpa [Written.place, sameDir, sameName] using distinct)
      rw [createAll_cons_run, created]
      rwa [List.map_append, List.map_singleton, path] at later

/-- Writing files below a directory is all or nothing. If it succeeds, the files are there
    with their texts, every other file is as it was, and none is there besides; if it fails,
    the files are those that were there. It fails with nothing done if there is something at
    one of the paths, and succeeds if, once the directory is made, the paths lead to
    different places where nothing is. -/
theorem writeAll_allOrNothing (t : Tree) (dir : String) (files : List MigrationFile) :
    let target (file : MigrationFile) := Path.join dir file.fileName
    let out := (writeAll dir files : StateM Tree (Except Error (List String))).run t
    (∀ paths, out.1 = .ok paths →
      paths = files.map target ∧
      (∀ file ∈ files, out.2.read (target file) = .ok file.contents) ∧
      (∀ place text, t.fileAt? place = some text → out.2.fileAt? place = some text) ∧
      (∀ place text, out.2.fileAt? place = some text → t.fileAt? place = some text ∨
        ∃ file ∈ files, ∃ spot,
          out.2.resolve (target file) = .ok spot ∧ spot.location = place)) ∧
    (∀ e, out.1 = .error e → ∀ place, out.2.fileAt? place = t.fileAt? place) ∧
    ((∃ file ∈ files, (t.kind? (target file)).isSome) →
      ∃ file ∈ files, (t.kind? (target file)).isSome ∧
        out = (.error (.migrationExists (target file)), t)) ∧
    (∀ made places, (∀ file ∈ files, t.kind? (target file) = none) →
      (FileStore.makeDirs dir : StateM Tree (Except IoError Unit)).run t = (.ok (), made) →
      List.Forall₂ (fun file place => made.Vacant (target file) place) files places →
      places.Nodup → ∃ paths, out.1 = .ok paths) := by
  intro target out
  rcases writeAll_cases t dir files with ⟨file, listed, there, refused⟩ |
    ⟨absent, e, made, directories, failed⟩ | ⟨absent, made, directories, went⟩
  · refine ⟨?_, ?_, ?_, ?_⟩
    · intro paths ok
      simp [out, refused] at ok
    · intro e _ place
      simp only [out, refused]
    · intro _
      exact ⟨file, listed, there, refused⟩
    · intro made places absent
      simp [target, absent file listed] at there
  · refine ⟨?_, ?_, ?_, ?_⟩
    · intro paths ok
      simp [out, failed] at ok
    · intro _ _ place
      simp only [out, failed]
      exact Tree.fileAt?_of_makeDirs directories place
    · rintro ⟨file, listed, there⟩
      simp [target, absent file listed] at there
    · intro other places _ ok
      rw [directories] at ok
      cases ok
  · have kept := Tree.fileAt?_of_makeDirs directories
    have since := createAll_since (Since.refl made) dir files
    rw [List.map_nil, show _ = out from went.symm] at since
    refine ⟨?_, ?_, ?_, ?_⟩
    · intro paths ok
      rw [show out = (.ok paths, out.2) from Prod.ext ok rfl] at since
      obtain ⟨more, all, joined, listed⟩ := since
      rw [List.nil_append] at all joined
      have names : more.map Written.path = files.map target := by
        simpa [Function.comp_def] using congrArg (List.map Prod.fst) listed
      refine ⟨joined.trans names, ?_, ?_, ?_⟩
      · intro file member
        have pair : (target file, file.contents) ∈ more.map fun w => (w.path, w.text) := by
          rw [listed]
          exact List.mem_map_of_mem member
        obtain ⟨w, written, same⟩ := List.mem_map.mp pair
        obtain ⟨path, text⟩ := Prod.mk.inj same
        rw [← path, ← text]
        exact (all.leads w written).read_eq (all.there w written)
      · intro place text old
        rw [← kept] at old
        exact all.fileAt?_kept old
      · intro place text new
        rcases all.fileAt?_cases new with old | ⟨w, written, spot, found, there⟩
        · exact .inl ((kept place).symm.trans old)
        · have path : w.path ∈ files.map target := by
            rw [← names]
            exact List.mem_map_of_mem written
          obtain ⟨file, member, same⟩ := List.mem_map.mp path
          exact .inr ⟨file, member, spot, same ▸ found, there⟩
    · intro e failed place
      rw [show out = (.error e, out.2) from Prod.ext failed rfl] at since
      rw [← kept, Tree.fileAt?, since place, Tree.fileAt?]
    · rintro ⟨file, listed, there⟩
      simp [target, absent file listed] at there
    · intro other places _ ok vacant distinct
      rw [directories] at ok
      cases ok
      simp only [out, went]
      exact createAll_ok (Since.refl made) dir vacant (by simpa using distinct)

-- The second path to the first file is not there until the first file is.
example :
    let out := (writeAll "new" [⟨"a", "1"⟩, ⟨"b", "2"⟩, ⟨"./a", "3"⟩] :
      StateM Tree (Except Error (List String))).run ⟨.directory [("old", .file "0")], []⟩
    out.1.toOption = none ∧ out.2.fileAt? ["old"] = some "0" ∧
      out.2.fileAt? ["new", "a"] = none ∧ out.2.fileAt? ["new", "b"] = none := by
  decide +kernel

example :
    let out := (writeAll "new" [⟨"a", "1"⟩, ⟨"b", "2"⟩] :
      StateM Tree (Except Error (List String))).run ⟨.directory [("old", .file "0")], []⟩
    out.1.toOption = some ["new/a", "new/b"] ∧ out.2.fileAt? ["old"] = some "0" ∧
      out.2.fileAt? ["new", "a"] = some "1" ∧ out.2.fileAt? ["new", "b"] = some "2" := by
  decide +kernel

end MigrationFile

end TableShift
