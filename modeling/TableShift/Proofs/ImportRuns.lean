import Mathlib.Data.List.Nodup
import TableShift.Cli.Run
import TableShift.Proofs.BatchRuns
import TableShift.Proofs.FileNames
import TableShift.Proofs.WriteAll

/-! # An import commits once or not at all

An import reads its configuration, its script and its stub, and only then writes. So it has
a part that looks at a tree and changes nothing, and one step that writes, which leaves all
files or none. What is read is told here by functions on trees.
-/

namespace TableShift

/-! ## What is read -/

namespace Tree

/-- The configuration file of an import: a given one, or the first candidate that is there. -/
def configFile? (t : Tree) (explicit : Option String) (candidates : List String) : Option String :=
  explicit.or (candidates.find? fun path => t.kind? path = some .file)

def loadConfig (t : Tree) (path : String) : Except Error Config :=
  match t.read path with
  | .ok text => Config.ofText text
  | .error e => .error (.config (.unreadable path e))

/-- The configuration of an import; the defaults if there is no file. -/
def config (t : Tree) (explicit : Option String) (candidates : List String) :
    Except Error Config :=
  match t.configFile? explicit candidates with
  | some path => t.loadConfig path
  | none => .ok {}

/-- The statements of the script in a file. -/
def statements (t : Tree) (file : String) : Except RunError (List Statement) :=
  match t.read file with
  | .ok script => (Script.parse script).mapError (.unparsable file)
  | .error e => .error (.unreadable file e)

/-- The stub in a file, or the builtin one. -/
def stub (t : Tree) : Option String → Except Error Stub
  | none => .ok .builtin
  | some path =>
    match t.read path with
    | .ok template =>
      match Stub.ofText? template with
      | some stub => .ok stub
      | none => .error (.stub (some path))
    | .error e => .error (.io e)

end Tree

section Runs

variable (t : Tree)

theorem Config.load_run (path : String) :
    (Config.load path : StateM Tree (Except Error Config)).run t = (t.loadConfig path, t) := by
  simp only [Config.load, FileStore.read, bind, StateT.bind, StateT.run, Tree.loadConfig]
  cases t.read path <;> rfl

theorem Config.firstOf_run (paths : List String) :
    (Config.firstOf paths : StateM Tree (Except Error (Config × Option String))).run t =
      ((t.config none paths).map (·, t.configFile? none paths), t) := by
  induction paths with
  | nil => rfl
  | cons path paths ih =>
      have load := load_run t path
      simp only [StateT.run] at load ih
      by_cases there : t.kind? path = some .file
      · have first : t.configFile? none (path :: paths) = some path := by
          simp [Tree.configFile?, there]
        simp only [firstOf, FileStore.kind?, bind, StateT.bind, StateT.run, there, if_true, load,
          Tree.config, first]
        rfl
      · have first : t.configFile? none (path :: paths) = t.configFile? none paths := by
          simp [Tree.configFile?, there]
        simp only [firstOf, FileStore.kind?, bind, StateT.bind, StateT.run, there, if_false, ih,
          Tree.config, first]

theorem Config.discover_run (explicit : Option String) (candidates : List String) :
    (Config.discover explicit candidates :
        StateM Tree (Except Error (Config × Option String))).run t =
      ((t.config explicit candidates).map (·, t.configFile? explicit candidates), t) := by
  cases explicit with
  | none => exact firstOf_run t candidates
  | some path =>
      have load := load_run t path
      simp only [StateT.run] at load
      simp only [discover, bind, StateT.bind, StateT.run, load]
      rfl

theorem readStatements_run (file : String) :
    (readStatements file : StateM Tree (Except RunError (List Statement))).run t =
      (t.statements file, t) := by
  simp only [readStatements, FileStore.read, bind, StateT.bind, StateT.run, Tree.statements]
  cases t.read file with
  | error e => rfl
  | ok script =>
      dsimp only
      cases Script.parse script <;> rfl

theorem chosenStub_run (path : Option String) :
    (chosenStub path : StateM Tree (Except Error Stub)).run t = (t.stub path, t) := by
  cases path with
  | none => rfl
  | some path =>
      simp only [chosenStub, Stub.load, FileStore.read, bind, StateT.bind, StateT.run, Tree.stub]
      cases t.read path with
      | error e => rfl
      | ok template =>
          dsimp only
          cases Stub.ofText? template <;> rfl

theorem runExplain_run (file : String) (format : OutputFormat) :
    ((runExplain file format : StateM Tree Report).run t).2 = t := by
  have read := readStatements_run t file
  simp only [StateT.run] at read
  simp only [runExplain, bind, StateT.bind, StateT.run, read]
  cases t.statements file <;> rfl

end Runs

/-! ## What an import finds -/

namespace ImportOptions

variable (options : ImportOptions)

/-- The tab level of an import's code. -/
def level (config : Config) : Nat :=
  options.indent.getD config.migrations.indent

/-- The directory of an import's files. -/
def directory (config : Config) : String :=
  options.path.getD config.migrations.path

/-- Whether an import makes one migration for all statements. -/
def squashes (config : Config) : Bool :=
  options.squash || options.name.isSome || config.migrations.squash

def pending (config : Config) (file : String) (statements : List Statement) :
    List PendingMigration :=
  PendingMigration.plan statements (options.level config) (options.squashName? config file)

/-- The configuration, the script and the statements that an import finds in a tree. -/
structure Finds (env : Environment) (t : Tree) (config : Config) (file : String)
    (statements : List Statement) : Prop where
  configured : t.config options.config env.configCandidates = .ok config
  named : options.inputFile? config = some file
  read : t.statements file = .ok statements

/-- An import that finds all it needs to write files. -/
structure Ready (env : Environment) (t : Tree) (config : Config) (file : String)
    (statements : List Statement) (stub : Stub) : Prop
    extends options.Finds env t config file statements where
  nonempty : statements ≠ []
  shallow : options.level config ≤ maxIndent
  chosen : t.stub (options.stub.or config.migrations.stub) = .ok stub

/-- Why an import does not get as far as to write. -/
inductive Refused (env : Environment) (t : Tree) : Prop where
  | config {e : Error} (refused : t.config options.config env.configCandidates = .error e)
  | input {config : Config} (found : t.config options.config env.configCandidates = .ok config)
      (unnamed : options.inputFile? config = none)
  | script {config : Config} {file : String} {e : RunError}
      (found : t.config options.config env.configCandidates = .ok config)
      (named : options.inputFile? config = some file) (refused : t.statements file = .error e)
  | indent {config : Config} {file : String} {statements : List Statement}
      (finds : options.Finds env t config file statements) (nonempty : statements ≠ [])
      (deep : maxIndent < options.level config)
  | stub {config : Config} {file : String} {statements : List Statement} {e : Error}
      (finds : options.Finds env t config file statements) (nonempty : statements ≠ [])
      (refused : t.stub (options.stub.or config.migrations.stub) = .error e)

end ImportOptions

/-- The exit code after a step that may fail. -/
def exitOf {α : Type} : Except Error α → Nat
  | .ok _ => 0
  | .error _ => 1

/-- What an import can do, by its exit code and the tree it leaves. -/
inductive ImportRun (env : Environment) (options : ImportOptions) (t : Tree) :
    Nat → Tree → Prop where
  | refused (why : options.Refused env t) : ImportRun env options t 1 t
  /-- The script holds no statement about tables. -/
  | idle {config : Config} {file : String} (finds : options.Finds env t config file []) :
      ImportRun env options t 0 t
  /-- The files are shown. -/
  | shown {config : Config} {file : String} {statements : List Statement} {stub : Stub}
      (ready : options.Ready env t config file statements stub) (dry : options.dryRun = true) :
      ImportRun env options t 0 t
  /-- The files are written, or one of them cannot be. -/
  | wrote {config : Config} {file : String} {statements : List Statement} {stub : Stub}
      {result : Except Error (List String)} {last : Tree}
      (ready : options.Ready env t config file statements stub) (wet : options.dryRun = false)
      (ran : (MigrationFile.writeAll (options.directory config)
        (MigrationFile.render stub env.now (options.pending config file statements)) :
          StateM Tree (Except Error (List String))).run t = (result, last)) :
      ImportRun env options t (exitOf result) last

theorem importRun_importStatements {env : Environment} {options : ImportOptions} {t : Tree}
    {config : Config} {file : String} {statements : List Statement}
    (finds : options.Finds env t config file statements) (nonempty : statements ≠ [])
    (banner : String) :
    let ran := (importStatements env options config file banner statements :
      StateM Tree Report).run t
    ImportRun env options t ran.1.exit ran.2 := by
  have read := chosenStub_run t (options.stub.or config.migrations.stub)
  simp only [StateT.run] at read
  by_cases shallow : options.level config ≤ maxIndent
  · have checked : checkIndent (options.indent.getD config.migrations.indent) = .ok () :=
      if_pos shallow
    simp only [importStatements, StateT.run, checked, bind, StateT.bind, read]
    cases chosen : t.stub (options.stub.or config.migrations.stub) with
    | error e => exact .refused (.stub finds nonempty chosen)
    | ok stub =>
        have ready : options.Ready env t config file statements stub :=
          ⟨finds, nonempty, shallow, chosen⟩
        cases dry : options.dryRun with
        | true => exact .shown ready dry
        | false =>
            simp only [Bool.false_eq_true, if_false, StateT.bind]
            cases ran : (MigrationFile.writeAll (options.directory config)
                (MigrationFile.render stub env.now (options.pending config file statements)) :
                  StateM Tree (Except Error (List String))) t with
            | mk result last =>
                have went := ran
                simp only [ImportOptions.directory, ImportOptions.pending,
                  ImportOptions.level] at went
                rw [went]
                have wrote := ImportRun.wrote ready dry ran
                cases result with
                | error e => exact wrote
                | ok paths => exact wrote
  · have checked : checkIndent (options.indent.getD config.migrations.indent) =
        .error (.config (.indentTooDeep maxIndent (options.level config))) := if_neg shallow
    simp only [importStatements, StateT.run, checked]
    exact .refused (.indent finds nonempty (by omega))

theorem importRun_runImport (env : Environment) (options : ImportOptions) (t : Tree) :
    let ran := (runImport env options : StateM Tree Report).run t
    ImportRun env options t ran.1.exit ran.2 := by
  have discovered := Config.discover_run t options.config env.configCandidates
  simp only [StateT.run] at discovered
  simp only [runImport, StateT.run, bind, StateT.bind, discovered]
  cases configured : t.config options.config env.configCandidates with
  | error e => exact .refused (.config configured)
  | ok config =>
      simp only [Except.map]
      cases named : options.inputFile? config with
      | none => exact .refused (.input configured named)
      | some file =>
          have read := readStatements_run t file
          simp only [StateT.run] at read
          simp only [StateT.bind, read]
          cases found : t.statements file with
          | error e => exact .refused (.script configured named found)
          | ok statements =>
              have finds : options.Finds env t config file statements := ⟨configured, named, found⟩
              by_cases empty : statements = []
              · subst empty
                exact .idle finds
              · have some_ : statements.isEmpty = false := by simpa using empty
                simp only [bind, some_, Bool.false_eq_true, if_false]
                exact importRun_importStatements finds empty _

/-! ## What is written -/

namespace Tree

/-- A path leads to a directory; the empty path leads to where paths start. -/
structure HasDirectory (t : Tree) (path : String) (place : Location) : Prop where
  walked : t.view.walk [] (t.base path ++ Path.parts path) = .ok place
  directory : t.view place = some .directory

theorem HasDirectory.unique {t : Tree} {path : String} {place other : Location}
    (h : t.HasDirectory path place) (g : t.HasDirectory path other) : other = place :=
  Except.ok.inj (g.walked.symm.trans h.walked)

theorem Leads.hasDirectory {t : Tree} {path dir entry name : String} {place : Location}
    (h : t.Leads path place name) (into : Path.LeadsInto dir entry path) :
    t.HasDirectory dir place ∧ name = entry := by
  have last := h.last
  have walked := h.walked
  rw [into.parts, List.getLast?_concat, Option.some.injEq] at last
  rw [into.parts, List.dropLast_concat, base, into.absolute] at walked
  exact ⟨⟨walked, h.directory⟩, last.symm⟩

end Tree

theorem PendingMigration.length_plan {statements : List Statement} (nonempty : statements ≠ [])
    (indent : Nat) (squash : Option String) :
    (plan statements indent squash).length = if squash.isSome then 1 else statements.length := by
  cases squash with
  | none => simp [plan, Migration.each_eq_map]
  | some name =>
      obtain ⟨first, others, rfl⟩ := List.exists_cons_of_ne_nil nonempty
      rfl

namespace MigrationFile

theorem contents_renderFrom (stub : Stub) (start : Stamp) (position : Nat)
    (pending : List PendingMigration) :
    (renderFrom stub start position pending).map contents =
      pending.map fun p => stub.render p.table p.migration := by
  induction pending generalizing position with
  | nil => rfl
  | cons p pending ih => rw [renderFrom, List.map_cons, List.map_cons, ih]

theorem isEntry_of_mem_render {stub : Stub} {start : Stamp} {statements : List Statement}
    {indent : Nat} {squash : Option String} {file : MigrationFile}
    (h : file ∈ render stub start (PendingMigration.plan statements indent squash)) :
    Path.IsEntry file.fileName := by
  obtain ⟨i, -, -, p, planned, stamped⟩ := mem_renderFrom h
  rw [stamped]
  refine isEntry_nameAt start i ?_
  intro slash
  exact absurd (PendingMigration.isNameChar_plan planned slash) (by decide)

/-- Some files are new in a directory, and no other file is new, gone or changed. -/
structure Added (files : List MigrationFile) (place : Location) (before after : Tree) : Prop where
  distinct : (files.map fileName).Nodup
  vacant : ∀ file ∈ files, before.fileAt? (place ++ [file.fileName]) = none
  there : ∀ file ∈ files, after.fileAt? (place ++ [file.fileName]) = some file.contents
  elsewhere : ∀ q, q ∉ files.map (fun file => place ++ [file.fileName]) →
    after.fileAt? q = before.fileAt? q

theorem fileAt?_of_writeAll_error {t last : Tree} {dir : String} {files : List MigrationFile}
    {e : Error} (h : (writeAll dir files : StateM Tree (Except Error (List String))).run t =
      (.error e, last)) (q : Location) : last.fileAt? q = t.fileAt? q := by
  rcases writeAll_cases t dir files with ⟨_, _, _, refused⟩ | ⟨_, _, made, directories, failed⟩ |
    ⟨_, made, directories, went⟩
  · cases h.symm.trans refused
    rfl
  · cases h.symm.trans failed
    exact Tree.fileAt?_of_makeDirs directories q
  · have since := createAll_since (Since.refl made) dir files
    rw [List.map_nil, ← went, h] at since
    rw [← Tree.fileAt?_of_makeDirs directories, Tree.fileAt?, since q, Tree.fileAt?]

section Entries

variable {start t : Tree} {done : List Written} {dir : String} {files : List MigrationFile}
  (since : Since start t done)
  (paths : done.map Written.path = files.map fun file => Path.join dir file.fileName)
  (entries : ∀ file ∈ files, Path.IsEntry file.fileName)
include since paths entries

theorem hasDirectory_of_since {w : Written} (member : w ∈ done) : t.HasDirectory dir w.dir := by
  have path : w.path ∈ files.map fun file => Path.join dir file.fileName := by
    rw [← paths]
    exact List.mem_map_of_mem member
  obtain ⟨file, written, same⟩ := List.mem_map.mp path
  have into := (entries file written).leadsInto_join dir
  rw [same] at into
  exact ((since.leads w member).hasDirectory into).1

theorem places_of_since {place : Location} (here : t.HasDirectory dir place) :
    done.map Written.place = files.map fun file => place ++ [file.fileName] := by
  -- Both sides are told by the paths, whose last parts are the names.
  let entry (path : String) : Location := place ++ [(Path.parts path).getLast?.getD ""]
  calc
    done.map Written.place
    _ = (done.map Written.path).map entry := by
        rw [List.map_map]
        refine List.map_congr_left fun w member => ?_
        have same := here.unique (hasDirectory_of_since since paths entries member)
        simp [entry, Written.place, same, (since.leads w member).last]
    _ = (files.map fun file => Path.join dir file.fileName).map entry := by rw [paths]
    _ = files.map fun file => place ++ [file.fileName] := by
        rw [List.map_map]
        refine List.map_congr_left fun file member => ?_
        simp [entry, (entries file member).parts_join dir]

end Entries

theorem exists_writeAll_of_present {t : Tree} {dir : String} {files : List MigrationFile}
    (present : ∃ file ∈ files, (t.kind? (Path.join dir file.fileName)).isSome) :
    ∃ e, (writeAll dir files : StateM Tree (Except Error (List String))).run t = (.error e, t) := by
  obtain ⟨file, member, there⟩ := present
  rcases writeAll_cases t dir files with ⟨_, _, _, refused⟩ | ⟨absent, _⟩ | ⟨absent, _⟩
  · exact ⟨_, refused⟩
  · simp [absent file member] at there
  · simp [absent file member] at there

/-- Files are written if, once the directory is made, their paths lead to different places
    where nothing is. -/
theorem exists_writeAll_of_vacant {t made : Tree} {dir : String} {files : List MigrationFile}
    {places : List Location}
    (absent : ∀ file ∈ files, t.kind? (Path.join dir file.fileName) = none)
    (directories : (FileStore.makeDirs dir : StateM Tree (Except IoError Unit)).run t =
      (.ok (), made))
    (vacant : List.Forall₂ (fun file place => made.Vacant (Path.join dir file.fileName) place)
      files places) (distinct : places.Nodup) :
    ∃ paths, ((writeAll dir files : StateM Tree (Except Error (List String))).run t).1 =
      .ok paths := by
  rcases writeAll_cases t dir files with ⟨file, member, there, _⟩ | ⟨_, _, _, failed, _⟩ |
    ⟨_, _, same, went⟩
  · simp [absent file member] at there
  · cases directories.symm.trans failed
  · cases directories.symm.trans same
    rw [went]
    exact createAll_ok (Since.refl made) dir vacant (by simpa using distinct)

theorem exists_added_of_writeAll {t last : Tree} {dir : String} {files : List MigrationFile}
    {written : List String} (nonempty : files ≠ [])
    (entries : ∀ file ∈ files, Path.IsEntry file.fileName)
    (h : (writeAll dir files : StateM Tree (Except Error (List String))).run t =
      (.ok written, last)) :
    ∃ place, last.HasDirectory dir place ∧ Added files place t last := by
  rcases writeAll_cases t dir files with ⟨_, _, _, refused⟩ | ⟨_, _, _, _, failed⟩ |
    ⟨-, made, directories, went⟩
  · cases h.symm.trans refused
  · cases h.symm.trans failed
  · have kept := Tree.fileAt?_of_makeDirs directories
    have ran := createAll_since (Since.refl made) dir files
    rw [List.map_nil, ← went, h] at ran
    obtain ⟨done, since, -, listed⟩ := ran
    rw [List.nil_append] at since
    have paths : done.map Written.path = files.map fun file => Path.join dir file.fileName := by
      simpa [Function.comp_def] using congrArg (List.map Prod.fst) listed
    obtain ⟨first, member⟩ : ∃ first, first ∈ done := by
      apply List.exists_mem_of_ne_nil
      rintro rfl
      exact nonempty (List.map_eq_nil_iff.mp paths.symm)
    have here := hasDirectory_of_since since paths entries member
    have places := places_of_since since paths entries here
    refine ⟨first.dir, here, ?_, ?_, ?_, ?_⟩
    · have distinct := since.distinct
      have names : files.map (fun file => first.dir ++ [file.fileName]) =
          (files.map fileName).map fun name => first.dir ++ [name] := by simp
      rw [places, names] at distinct
      exact List.Nodup.of_map _ distinct
    · intro file new
      have placed : first.dir ++ [file.fileName] ∈ done.map Written.place := by
        rw [places]
        exact List.mem_map_of_mem new
      obtain ⟨w, listed, same⟩ := List.mem_map.mp placed
      rw [← kept, ← same, Tree.fileAt?, since.vacant w listed]
    · intro file new
      have pair : (Path.join dir file.fileName, file.contents) ∈
          done.map fun w => (w.path, w.text) := by
        rw [listed]
        exact List.mem_map_of_mem new
      obtain ⟨w, member, same⟩ := List.mem_map.mp pair
      obtain ⟨path, text⟩ := Prod.mk.inj same
      have into := (entries file new).leadsInto_join dir
      rw [← path] at into
      obtain ⟨there, name⟩ := (since.leads w member).hasDirectory into
      rw [Tree.fileAt?_eq_some_iff, ← text, ← since.there w member, Written.place, name,
        here.unique there]
    · intro q other
      rw [← places] at other
      rw [← kept, Tree.fileAt?, since.elsewhere q other, Tree.fileAt?]

end MigrationFile

/-! ## Runs -/

namespace ImportOptions

variable {options : ImportOptions} {env : Environment} {t : Tree} {config other : Config}
  {file script : String} {statements found : List Statement} {stub : Stub}

theorem Finds.unique (h : options.Finds env t config file statements)
    (g : options.Finds env t other script found) :
    other = config ∧ script = file ∧ found = statements := by
  obtain rfl := Except.ok.inj (g.configured.symm.trans h.configured)
  obtain rfl := Option.some.inj (g.named.symm.trans h.named)
  exact ⟨rfl, rfl, Except.ok.inj (g.read.symm.trans h.read)⟩

theorem Ready.unique (h : options.Ready env t config file statements stub) {second : Stub}
    (g : options.Ready env t other script found second) :
    other = config ∧ script = file ∧ found = statements ∧ second = stub := by
  obtain ⟨rfl, rfl, rfl⟩ := h.toFinds.unique g.toFinds
  exact ⟨rfl, rfl, rfl, Except.ok.inj (g.chosen.symm.trans h.chosen)⟩

/-- An import that is refused although it finds a script has statements to write, and
    something else is wrong. -/
theorem Refused.not_ready (h : options.Refused env t)
    (finds : options.Finds env t config file statements) :
    statements ≠ [] ∧ ∀ stub, ¬ options.Ready env t config file statements stub := by
  cases h with
  | config refused => cases refused.symm.trans finds.configured
  | input found unnamed =>
      obtain rfl := Except.ok.inj (found.symm.trans finds.configured)
      cases unnamed.symm.trans finds.named
  | script found named refused =>
      obtain rfl := Except.ok.inj (found.symm.trans finds.configured)
      obtain rfl := Option.some.inj (named.symm.trans finds.named)
      cases refused.symm.trans finds.read
  | indent others nonempty deep =>
      obtain ⟨rfl, rfl, rfl⟩ := finds.unique others
      exact ⟨nonempty, fun stub ready => absurd ready.shallow (by omega)⟩
  | stub others nonempty refused =>
      obtain ⟨rfl, rfl, rfl⟩ := finds.unique others
      exact ⟨nonempty, fun stub ready => by cases refused.symm.trans ready.chosen⟩

theorem isSome_squashName? (options : ImportOptions) (config : Config) (file : String) :
    (options.squashName? config file).isSome = options.squashes config := by
  rw [squashName?, squashes]
  split
  next squash => rw [squash]; rfl
  next each => simpa using each

theorem length_pending (options : ImportOptions) (config : Config) (file : String)
    (nonempty : statements ≠ []) :
    (options.pending config file statements).length =
      if options.squashes config then 1 else statements.length := by
  rw [pending, PendingMigration.length_plan nonempty, isSome_squashName?]

end ImportOptions

namespace ImportRun

variable {env : Environment} {options : ImportOptions} {t last : Tree} {exit : Nat}
  (h : ImportRun env options t exit last)
include h

theorem fileAt?_of_ne_zero (failed : exit ≠ 0) (q : Location) : last.fileAt? q = t.fileAt? q := by
  cases h with
  | refused => rfl
  | idle | shown => contradiction
  | @wrote _ _ _ _ result _ _ _ ran =>
      cases result with
      | ok paths => contradiction
      | error e => exact MigrationFile.fileAt?_of_writeAll_error ran q

theorem of_refused (why : options.Refused env t) : exit ≠ 0 ∧ last = t := by
  cases h with
  | refused => exact ⟨by decide, rfl⟩
  | idle finds => exact absurd rfl (why.not_ready finds).1
  | shown ready => exact absurd ready ((why.not_ready ready.toFinds).2 _)
  | wrote ready => exact absurd ready ((why.not_ready ready.toFinds).2 _)

theorem of_dryRun (dry : options.dryRun = true) : last = t := by
  cases h with
  | refused | idle | shown => rfl
  | wrote _ wet => simp [wet] at dry

theorem of_finds_nil {config : Config} {file : String}
    (nothing : options.Finds env t config file []) : exit = 0 ∧ last = t := by
  cases h with
  | refused why => exact absurd rfl (why.not_ready nothing).1
  | idle => exact ⟨rfl, rfl⟩
  | shown ready => exact absurd (nothing.unique ready.toFinds).2.2 ready.nonempty
  | wrote ready => exact absurd (nothing.unique ready.toFinds).2.2 ready.nonempty

/-- An import that finds all it needs, and is no dry run, is one step that writes. -/
theorem of_ready {config : Config} {file : String} {statements : List Statement} {stub : Stub}
    (ready : options.Ready env t config file statements stub) (wet : options.dryRun = false) :
    ∃ result, exit = exitOf result ∧
      (MigrationFile.writeAll (options.directory config)
        (MigrationFile.render stub env.now (options.pending config file statements)) :
          StateM Tree (Except Error (List String))).run t = (result, last) := by
  cases h with
  | refused why => exact absurd ready ((why.not_ready ready.toFinds).2 _)
  | idle finds => exact absurd (finds.unique ready.toFinds).2.2 ready.nonempty
  | shown _ dry => simp [wet] at dry
  | wrote others _ ran =>
      obtain ⟨rfl, rfl, rfl, rfl⟩ := ready.unique others
      exact ⟨_, rfl, ran⟩

theorem exists_finds :
    options.Refused env t ∨ ∃ config file statements, options.Finds env t config file statements ∧
      (statements = [] ∨ ∃ stub, options.Ready env t config file statements stub) := by
  cases h with
  | refused why => exact .inl why
  | idle finds => exact .inr ⟨_, _, _, finds, .inl rfl⟩
  | shown ready => exact .inr ⟨_, _, _, ready.toFinds, .inr ⟨_, ready⟩⟩
  | wrote ready => exact .inr ⟨_, _, _, ready.toFinds, .inr ⟨_, ready⟩⟩

section Ready

variable {config : Config} {file : String} {statements : List Statement} {stub : Stub}
  (ready : options.Ready env t config file statements stub) (wet : options.dryRun = false)
include ready wet

theorem of_present
    (present : ∃ f ∈ MigrationFile.render stub env.now (options.pending config file statements),
      (t.kind? (Path.join (options.directory config) f.fileName)).isSome) :
    exit ≠ 0 ∧ last = t := by
  obtain ⟨result, rfl, ran⟩ := h.of_ready ready wet
  obtain ⟨e, refused⟩ := MigrationFile.exists_writeAll_of_present present
  cases refused.symm.trans ran
  exact ⟨by simp [exitOf], rfl⟩

theorem exists_added (ok : exit = 0) :
    ∃ place, last.HasDirectory (options.directory config) place ∧
      MigrationFile.Added
        (MigrationFile.render stub env.now (options.pending config file statements)) place t
        last := by
  obtain ⟨result, rfl, ran⟩ := h.of_ready ready wet
  cases result with
  | error e => contradiction
  | ok paths =>
      refine MigrationFile.exists_added_of_writeAll ?_
        (fun f member => MigrationFile.isEntry_of_mem_render member) ran
      have planned := options.length_pending config file ready.nonempty
      have some_ := List.length_pos_iff.mpr ready.nonempty
      have contents := congrArg List.length (MigrationFile.contents_renderFrom stub env.now 0
        (options.pending config file statements))
      rw [List.length_map, List.length_map, planned] at contents
      apply List.ne_nil_of_length_pos
      rw [MigrationFile.render, contents]
      split <;> omega

theorem eq_zero_of_vacant {made : Tree} {places : List Location}
    (absent : ∀ f ∈ MigrationFile.render stub env.now (options.pending config file statements),
      t.kind? (Path.join (options.directory config) f.fileName) = none)
    (directories : (FileStore.makeDirs (options.directory config) :
      StateM Tree (Except IoError Unit)).run t = (.ok (), made))
    (vacant : List.Forall₂
      (fun f place => made.Vacant (Path.join (options.directory config) f.fileName) place)
      (MigrationFile.render stub env.now (options.pending config file statements)) places)
    (distinct : places.Nodup) : exit = 0 := by
  obtain ⟨result, rfl, ran⟩ := h.of_ready ready wet
  obtain ⟨paths, ok⟩ := MigrationFile.exists_writeAll_of_vacant absent directories vacant distinct
  rw [ran] at ok
  subst ok
  rfl

end Ready

end ImportRun

/-- An import commits once or not at all, and nothing else writes. Files change only if the
    run succeeds. Then a dry run, and a script without statements about tables, leave the tree
    as it is; otherwise the rendered migrations, one or one for each statement, are new in the
    directory, and no other file is new, gone or changed. -/
theorem runProgram_commits (env : Environment) (arguments : List String) (t : Tree) :
    let ran := (runProgram env arguments : StateM Tree Report).run t
    (ran.1.exit ≠ 0 → ∀ place, ran.2.fileAt? place = t.fileAt? place) ∧
    match Invocation.ofArguments env.schema arguments with
    | .importScript options =>
      (options.Refused env t → ran.1.exit ≠ 0 ∧ ran.2 = t) ∧
      (options.dryRun = true → ran.2 = t) ∧
      (∀ config file, options.Finds env t config file [] → ran.1.exit = 0 ∧ ran.2 = t) ∧
      (∀ config file statements stub, options.Ready env t config file statements stub →
        options.dryRun = false →
        let dir := options.directory config
        let pending := options.pending config file statements
        let files := MigrationFile.render stub env.now pending
        let target (file : MigrationFile) := Path.join dir file.fileName
        pending.length = (if options.squashes config then 1 else statements.length) ∧
        files.map MigrationFile.contents = pending.map (fun p => stub.render p.table p.migration) ∧
        ((∃ file ∈ files, (t.kind? (target file)).isSome) → ran.1.exit ≠ 0 ∧ ran.2 = t) ∧
        (ran.1.exit = 0 → ∃ place, ran.2.HasDirectory dir place ∧
          MigrationFile.Added files place t ran.2) ∧
        (∀ made places, (∀ file ∈ files, t.kind? (target file) = none) →
          (FileStore.makeDirs dir : StateM Tree (Except IoError Unit)).run t = (.ok (), made) →
          List.Forall₂ (fun file place => made.Vacant (target file) place) files places →
          places.Nodup → ran.1.exit = 0)) ∧
      (options.Refused env t ∨ ∃ config file statements,
        options.Finds env t config file statements ∧
        (statements = [] ∨ ∃ stub, options.Ready env t config file statements stub))
    | _ => ran.2 = t := by
  intro ran
  cases invocation : Invocation.ofArguments env.schema arguments with
  | importScript options =>
      have run : ran = (runImport env options : StateM Tree Report).run t := by
        simp only [ran, runProgram, invocation]
      have outcome : ImportRun env options t ran.1.exit ran.2 := by
        rw [run]
        exact importRun_runImport env options t
      refine ⟨outcome.fileAt?_of_ne_zero, outcome.of_refused, outcome.of_dryRun,
        fun config file => outcome.of_finds_nil, ?_, outcome.exists_finds⟩
      intro config file statements stub ready wet dir pending files target
      exact ⟨options.length_pending config file ready.nonempty,
        MigrationFile.contents_renderFrom stub env.now 0 pending, outcome.of_present ready wet,
        outcome.exists_added ready wet, fun made places => outcome.eq_zero_of_vacant ready wet⟩
  | explain file format =>
      have same : ran.2 = t := by
        simp only [ran, runProgram, invocation]
        exact runExplain_run t file format
      exact ⟨fun _ _ => by rw [same], same⟩
  | types | help | version | misuse =>
      have same : ran.2 = t := by
        simp only [ran, runProgram, invocation]
        rfl
      exact ⟨fun _ _ => by rw [same], same⟩

example :
    let tree : Tree := ⟨.directory [("a.sql", .file "DROP TABLE t; DROP TABLE u")], []⟩
    let ran (arguments : List String) :=
      (runProgram ⟨⟨2024, 2, 29, 23, 59, 59⟩, none, none⟩ ("a.sql" :: arguments) :
        StateM Tree Report).run tree
    (ran ["-p", "out"]).1.exit = 0 ∧
    ((ran ["-p", "out"]).2.fileAt? ["out", "2024_02_29_235959_drop_t_table.php"]).isSome ∧
    ((ran ["-p", "out"]).2.fileAt? ["out", "2024_03_01_000000_drop_u_table.php"]).isSome ∧
    (ran ["--stub", "a.sql"]).1.exit = 1 := by
  decide +kernel

end TableShift
