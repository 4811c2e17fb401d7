import TableShift.Text.Numeral

/-! # Command line arguments

The arguments of a command are switches, settings with a value, and names of files,
in any order. A setting's value follows it, or is attached to it; each switch and
each setting is given once at most. After two dashes everything is a name. An
argument gives the same to the command in whatever way it is written.
-/

namespace TableShift

/-- Options without a value. -/
inductive Switch where
  | squash
  | dryRun
  | verbose
  deriving Repr, DecidableEq, BEq

/-- Options with a value. -/
inductive Setting where
  | schema
  | path
  | name
  | stub
  | indent
  | config
  | format
  deriving Repr, DecidableEq, BEq

inductive OptionUse where
  | switch (switch : Switch)
  | setting (setting : Setting)
  | help
  | version
  deriving Repr, DecidableEq, BEq

structure OptionSpec where
  long : String
  short : Option Char
  use : OptionUse
  deriving Repr, DecidableEq, BEq

structure CommandSpec where
  options : List OptionSpec
  /-- The most names it takes. -/
  maxNames : Nat
  subcommands : List String
  deriving Repr, DecidableEq, BEq

/-- The options that every command takes. -/
def sharedOptions : List OptionSpec := [
  ⟨"config", some 'c', .setting .config⟩,
  ⟨"verbose", some 'v', .switch .verbose⟩,
  ⟨"help", some 'h', .help⟩]

/-- The command that imports a script. -/
def importSpec : CommandSpec where
  options := [
    ⟨"schema", some 's', .setting .schema⟩,
    ⟨"path", some 'p', .setting .path⟩,
    ⟨"squash", none, .switch .squash⟩,
    ⟨"name", some 'n', .setting .name⟩,
    ⟨"stub", none, .setting .stub⟩,
    ⟨"indent", none, .setting .indent⟩,
    ⟨"dry-run", none, .switch .dryRun⟩,
    ⟨"version", some 'V', .version⟩] ++ sharedOptions
  maxNames := 1
  subcommands := ["explain", "types", "help"]

/-- The command that explains a script. -/
def explainSpec : CommandSpec where
  options := ⟨"format", some 'f', .setting .format⟩ :: sharedOptions
  maxNames := 1
  subcommands := []

/-- The command that shows the types. -/
def typesSpec : CommandSpec where
  options := sharedOptions
  maxNames := 0
  subcommands := []

/-- What arguments have given so far. -/
structure Given where
  switches : List Switch := []
  settings : List (Setting × String) := []
  names : List String := []
  deriving Repr, DecidableEq, BEq

/-- How reading arguments ends. -/
inductive ArgumentsEnd where
  /-- All arguments were read. -/
  | done (given : Given)
  /-- A subcommand came, with its own arguments. -/
  | subcommand (given : Given) (name : String) (arguments : List String)
  | help
  | version
  /-- The arguments are not acceptable. -/
  | misuse
  deriving Repr, DecidableEq, BEq

namespace Setting

/-- The tab level that a value gives. -/
def level? (value : String) : Option Nat :=
  unsigned? 10 UInt64.size value.toList

/-- Whether a value is acceptable. Paths are not empty. -/
def accepts (setting : Setting) (value : String) : Bool :=
  match setting with
  | schema | name => true
  | path | stub | config => !value.isEmpty
  | indent => (level? value).isSome
  | format => value == "text" || value == "json"

end Setting

namespace Given

/-- Adds a switch, unless it was given. -/
def addSwitch? (given : Given) (switch : Switch) : Option Given :=
  if given.switches.contains switch then none
  else some { given with switches := switch :: given.switches }

/-- Adds a setting, unless it was given or its value is not acceptable. -/
def addSetting? (given : Given) (setting : Setting) (value : String) : Option Given :=
  if given.settings.any (·.1 == setting) || !setting.accepts value then none
  else some { given with settings := (setting, value) :: given.settings }

/-- Adds the name of a file, unless there are enough. -/
def addName? (given : Given) (maxNames : Nat) (name : String) : Option Given :=
  if maxNames ≤ given.names.length || name.isEmpty then none
  else some { given with names := given.names ++ [name] }

def addNames? (given : Given) (maxNames : Nat) : List String → Option Given
  | [] => some given
  | name :: names => (given.addName? maxNames name).bind (·.addNames? maxNames names)

def value? (given : Given) (setting : Setting) : Option String :=
  (given.settings.find? (·.1 == setting)).map Prod.snd

end Given

/-- What the argument of one option leads to. -/
inductive OptionStep where
  | next (given : Given)
  /-- A setting waits for its value. -/
  | awaiting (given : Given) (setting : Setting)
  | help
  | version
  | misuse

/-- The step of an optional result; none is misuse. -/
def OptionStep.ofOption : Option Given → OptionStep
  | some given => .next given
  | none => .misuse

/-- Reads a long option, without its dashes. -/
def longStep (spec : CommandSpec) (given : Given) (text : List Char) : OptionStep :=
  let name := String.ofList (text.takeWhile (· != '='))
  let attached : Option String :=
    match text.dropWhile (· != '=') with
    | [] => none
    | _ :: value => some (String.ofList value)
  match (spec.options.find? (·.long == name)).map OptionSpec.use, attached with
  | some (.setting setting), some value => .ofOption (given.addSetting? setting value)
  | some (.setting setting), none => .awaiting given setting
  | some (.switch switch), none => .ofOption (given.addSwitch? switch)
  | some .help, none => .help
  | some .version, none => .version
  | _, _ => .misuse

/-- Reads short options that share one dash. The value of a setting may follow
    directly, with or without an equals sign. -/
def shortStep (spec : CommandSpec) (given : Given) : List Char → OptionStep
  | [] => .next given
  | c :: cs =>
    match (spec.options.find? (·.short == some c)).map OptionSpec.use with
    | some (.switch switch) =>
      match given.addSwitch? switch with
      | some given => shortStep spec given cs
      | none => .misuse
    | some (.setting setting) =>
      match cs with
      | [] => .awaiting given setting
      | '=' :: value => .ofOption (given.addSetting? setting (String.ofList value))
      | value => .ofOption (given.addSetting? setting (String.ofList value))
    | some .help => .help
    | some .version => .version
    | none => .misuse

/-- Reads the arguments of a command. -/
def readArguments (spec : CommandSpec) (given : Given) : List String → ArgumentsEnd
  | [] => .done given
  | argument :: rest =>
    if spec.subcommands.contains argument then .subcommand given argument rest
    else
      let step :=
        match argument.toList with
        | ['-', '-'] => none
        | '-' :: '-' :: text => some (longStep spec given text)
        | '-' :: c :: text => some (shortStep spec given (c :: text))
        | _ => some (.ofOption (given.addName? spec.maxNames argument))
      match step with
      | none =>
        match given.addNames? spec.maxNames rest with
        | some given => .done given
        | none => .misuse
      | some (.next given) => readArguments spec given rest
      | some (.awaiting given setting) =>
        match rest with
        | [] => .misuse
        | value :: rest =>
          if value.toList.head? = some '-' ∧ value ≠ "-" then .misuse
          else
            match given.addSetting? setting value with
            | some given => readArguments spec given rest
            | none => .misuse
      | some .help => .help
      | some .version => .version
      | some .misuse => .misuse

inductive OutputFormat where
  | text
  | json
  deriving Repr, DecidableEq, BEq

/-- What an import is asked to do. -/
structure ImportOptions where
  file : Option String := none
  schema : Option String := none
  path : Option String := none
  squash : Bool := false
  name : Option String := none
  stub : Option String := none
  indent : Option Nat := none
  dryRun : Bool := false
  config : Option String := none
  deriving Repr, DecidableEq, BEq

/-- What a command line asks for. -/
inductive Invocation where
  | importScript (options : ImportOptions)
  | explain (file : String) (format : OutputFormat)
  | types
  | help
  | version
  | misuse
  deriving Repr, DecidableEq, BEq

namespace Invocation

/-- The import that arguments ask for; the schema may come from elsewhere. -/
def ofImport (given : Given) (schema : Option String) : ImportOptions where
  file := given.names.head?
  schema := (given.value? .schema).or schema
  path := given.value? .path
  squash := given.switches.contains .squash
  name := given.value? .name
  stub := given.value? .stub
  indent := (given.value? .indent).bind Setting.level?
  dryRun := given.switches.contains .dryRun
  config := given.value? .config

/-- The explanation that arguments ask for. -/
def ofExplain (arguments : List String) : Invocation :=
  match readArguments explainSpec {} arguments with
  | .done given =>
    match given.names with
    | file :: _ => .explain file (if given.value? .format = some "json" then .json else .text)
    | [] => .misuse
  | .help => .help
  | _ => .misuse

/-- What the subcommand `types` asks for. -/
def ofTypes (arguments : List String) : Invocation :=
  match readArguments typesSpec {} arguments with
  | .done _ => .types
  | .help => .help
  | _ => .misuse

/-- What the subcommand `help` asks for: help on a command that there is. -/
def ofHelp : List String → Invocation
  | [] => .help
  | [name] => if importSpec.subcommands.contains name then .help else .misuse
  | _ => .misuse

/-- What a command line asks for, with the schema of the environment. -/
def ofArguments (schema : Option String) (arguments : List String) : Invocation :=
  match readArguments importSpec {} arguments with
  | .done given => .importScript (ofImport given schema)
  | .subcommand _ "explain" arguments => ofExplain arguments
  | .subcommand _ "types" arguments => ofTypes arguments
  | .subcommand _ _ arguments => ofHelp arguments
  | .help => .help
  | .version => .version
  | .misuse => .misuse

end Invocation

/-! ## Written arguments -/

/-- An argument of a command with what it gives; the value of a setting belongs to it. -/
inductive Argument where
  | switch (switch : Switch)
  | setting (setting : Setting) (value : String)
  | name (name : String)
  deriving Repr, DecidableEq

namespace CommandSpec

/-- What an option is called by: its long name behind two dashes, or its letter behind one. -/
inductive Marks (spec : CommandSpec) : OptionUse → String → Prop where
  | long {option : OptionSpec} (listed : option ∈ spec.options) :
      spec.Marks option.use ("--" ++ option.long)
  | short {option : OptionSpec} (listed : option ∈ spec.options) {c : Char}
      (letter : option.short = some c) : spec.Marks option.use ("-" ++ String.singleton c)

/-- A text that is not taken for an option. -/
def IsPlain (text : String) : Prop :=
  text.toList.head? = some '-' → text = "-"

/-- How an argument is written. -/
inductive Writes (spec : CommandSpec) : Argument → List String → Prop where
  | switch {s : Switch} {mark : String} (marks : spec.Marks (.switch s) mark) :
      spec.Writes (.switch s) [mark]
  | attached {s : Setting} {mark : String} (marks : spec.Marks (.setting s) mark) (value : String) :
      spec.Writes (.setting s value) [mark ++ "=" ++ value]
  | joined {option : OptionSpec} (listed : option ∈ spec.options) {c : Char}
      (letter : option.short = some c) {s : Setting} (uses : option.use = .setting s)
      {value : String} (visible : value ≠ "") (bare : value.toList.head? ≠ some '=') :
      spec.Writes (.setting s value) ["-" ++ String.singleton c ++ value]
  | followed {s : Setting} {mark : String} (marks : spec.Marks (.setting s) mark) {value : String}
      (plain : IsPlain value) : spec.Writes (.setting s value) [mark, value]
  | name {text : String} (plain : IsPlain text) (other : text ∉ spec.subcommands) :
      spec.Writes (.name text) [text]

/-- A command that finds its options by the names that they have. -/
structure Proper (spec : CommandSpec) : Prop where
  long : ∀ option ∈ spec.options,
    spec.options.find? (·.long == option.long) = some option
  short : ∀ option ∈ spec.options, option.short ≠ none →
    spec.options.find? (·.short == option.short) = some option ∧ option.short ≠ some '-'
  word : ∀ option ∈ spec.options, option.long ≠ "" ∧ '=' ∉ option.long.toList
  subcommands : ∀ name ∈ spec.subcommands, name.toList.head? ≠ some '-'

theorem proper_importSpec : importSpec.Proper := by
  constructor <;> decide

end CommandSpec

/-! ## Reading what is written -/

/-- The step of an argument; none for two dashes, behind which there are names only. -/
def argumentStep? (spec : CommandSpec) (given : Given) (argument : String) : Option OptionStep :=
  match argument.toList with
  | ['-', '-'] => none
  | '-' :: '-' :: text => some (longStep spec given text)
  | '-' :: c :: text => some (shortStep spec given (c :: text))
  | _ => some (.ofOption (given.addName? spec.maxNames argument))

/-- The step of an option without a value attached to it. -/
def OptionUse.step (given : Given) : OptionUse → OptionStep
  | switch s => .ofOption (given.addSwitch? s)
  | setting s => .awaiting given s
  | help => .help
  | version => .version

/-- How the rest of the arguments is read after a step. -/
def OptionStep.readOn (spec : CommandSpec) (rest : List String) : OptionStep → ArgumentsEnd
  | next given => readArguments spec given rest
  | awaiting given setting =>
    match rest with
    | [] => .misuse
    | value :: rest =>
      if value.toList.head? = some '-' ∧ value ≠ "-" then .misuse
      else
        match given.addSetting? setting value with
        | some given => readArguments spec given rest
        | none => .misuse
  | help => .help
  | version => .version
  | misuse => .misuse

section Steps

variable {spec : CommandSpec} {given : Given} {argument : String}

theorem readArguments_of_step {step : OptionStep} (free : argument ∉ spec.subcommands)
    (taken : argumentStep? spec given argument = some step) (rest : List String) :
    readArguments spec given (argument :: rest) = step.readOn spec rest := by
  have other : spec.subcommands.contains argument = false := by
    rwa [List.contains_eq_mem, decide_eq_false_iff_not]
  unfold argumentStep? at taken
  rw [readArguments]
  simp only [other, Bool.false_eq_true, if_false, taken]
  cases step <;> rfl

theorem argumentStep?_long {text : List Char} (chars : argument.toList = '-' :: '-' :: text)
    (visible : text ≠ []) : argumentStep? spec given argument = some (longStep spec given text) := by
  obtain ⟨c, text, rfl⟩ := List.exists_cons_of_ne_nil visible
  rw [argumentStep?, chars]
  rfl

theorem argumentStep?_short {c : Char} {text : List Char}
    (chars : argument.toList = '-' :: c :: text) (letter : c ≠ '-') :
    argumentStep? spec given argument = some (shortStep spec given (c :: text)) := by
  rw [argumentStep?, chars]
  split <;> simp_all

theorem argumentStep?_name (plain : CommandSpec.IsPlain argument) :
    argumentStep? spec given argument =
      some (.ofOption (given.addName? spec.maxNames argument)) := by
  unfold argumentStep?
  split <;> simp_all [CommandSpec.IsPlain]

end Steps

namespace CommandSpec

variable {spec : CommandSpec} (proper : spec.Proper) (given : Given)
include proper

/-- The name of a long option ends at an equals sign. -/
theorem Proper.span_long {option : OptionSpec} (listed : option ∈ spec.options) (tail : List Char)
    (equals : ∀ c ∈ tail.head?, c = '=') :
    (option.long.toList ++ tail).takeWhile (· != '=') = option.long.toList ∧
      (option.long.toList ++ tail).dropWhile (· != '=') = tail := by
  have plain : ∀ c ∈ option.long.toList, (c != '=') = true := by
    intro c member
    rw [bne_iff_ne]
    rintro rfl
    exact (proper.word option listed).2 member
  rw [List.takeWhile_append_of_pos plain, List.dropWhile_append_of_pos plain]
  cases tail with
  | nil => simp
  | cons c tail =>
      obtain rfl := equals c rfl
      simp

theorem Proper.find?_short {option : OptionSpec} (listed : option ∈ spec.options) {c : Char}
    (letter : option.short = some c) :
    spec.options.find? (·.short == some c) = some option ∧ c ≠ '-' := by
  have found := proper.short option listed (by simp [letter])
  simpa [letter] using found

theorem longStep_alone {option : OptionSpec} (listed : option ∈ spec.options) :
    longStep spec given option.long.toList = option.use.step given := by
  have span := proper.span_long listed [] (by simp)
  rw [List.append_nil] at span
  simp only [longStep, span.1, span.2, String.ofList_toList, proper.long option listed,
    Option.map_some]
  cases option.use <;> rfl

theorem longStep_attached {option : OptionSpec} (listed : option ∈ spec.options) {s : Setting}
    (uses : option.use = .setting s) (value : String) :
    longStep spec given (option.long.toList ++ '=' :: value.toList) =
      .ofOption (given.addSetting? s value) := by
  have span := proper.span_long listed ('=' :: value.toList) (by simp)
  simp only [longStep, span.1, span.2, String.ofList_toList, proper.long option listed,
    Option.map_some, uses]

theorem shortStep_alone {option : OptionSpec} (listed : option ∈ spec.options) {c : Char}
    (letter : option.short = some c) :
    shortStep spec given [c] = option.use.step given := by
  rw [shortStep, (proper.find?_short listed letter).1]
  simp only [Option.map_some]
  cases option.use with
  | switch s =>
      simp only [OptionUse.step]
      cases given.addSwitch? s <;> rfl
  | setting | help | version => rfl

theorem shortStep_joined {option : OptionSpec} (listed : option ∈ spec.options) {c : Char}
    (letter : option.short = some c) {s : Setting} (uses : option.use = .setting s)
    {value : String} (visible : value ≠ "") (bare : value.toList.head? ≠ some '=') :
    shortStep spec given (c :: value.toList) = .ofOption (given.addSetting? s value) := by
  rw [shortStep, (proper.find?_short listed letter).1]
  simp only [Option.map_some, uses]
  split <;> simp_all

theorem shortStep_attached {option : OptionSpec} (listed : option ∈ spec.options) {c : Char}
    (letter : option.short = some c) {s : Setting} (uses : option.use = .setting s)
    (value : String) :
    shortStep spec given (c :: '=' :: value.toList) = .ofOption (given.addSetting? s value) := by
  rw [shortStep, (proper.find?_short listed letter).1]
  simp only [Option.map_some, uses, String.ofList_toList]

theorem Marks.step_alone {use : OptionUse} {mark : String} (marks : spec.Marks use mark) :
    argumentStep? spec given mark = some (use.step given) := by
  cases marks with
  | @long option listed =>
      have visible : option.long.toList ≠ [] := by simp [(proper.word option listed).1]
      rw [argumentStep?_long (by simp) visible, longStep_alone proper given listed]
  | @short option listed c letter =>
      have chars : ("-" ++ String.singleton c).toList = ['-', c] := by simp
      have dashless := (proper.find?_short listed letter).2
      rw [argumentStep?_short chars dashless, shortStep_alone proper given listed letter]

theorem Marks.step_attached {s : Setting} {mark : String}
    (marks : spec.Marks (.setting s) mark) (value : String) :
    argumentStep? spec given (mark ++ "=" ++ value) =
      some (.ofOption (given.addSetting? s value)) := by
  generalize setting : OptionUse.setting s = use at marks
  cases marks with
  | @long option listed =>
      have chars : ("--" ++ option.long ++ "=" ++ value).toList =
          '-' :: '-' :: (option.long.toList ++ '=' :: value.toList) := by simp
      rw [argumentStep?_long chars (by simp), longStep_attached proper given listed setting.symm]
  | @short option listed c letter =>
      have chars : ("-" ++ String.singleton c ++ "=" ++ value).toList =
          '-' :: c :: '=' :: value.toList := by simp
      have dashless := (proper.find?_short listed letter).2
      rw [argumentStep?_short chars dashless,
        shortStep_attached proper given listed letter setting.symm]

theorem Marks.not_mem_subcommands {use : OptionUse} {mark : String} (marks : spec.Marks use mark)
    (tail : String) : mark ++ tail ∉ spec.subcommands := by
  intro listed
  apply proper.subcommands _ listed
  cases marks <;> simp

end CommandSpec

/-- What an argument adds to those before it. -/
def Given.add? (given : Given) (maxNames : Nat) : Argument → Option Given
  | .switch s => given.addSwitch? s
  | .setting s value => given.addSetting? s value
  | .name text => given.addName? maxNames text

/-- An argument adds what it gives, however it is written. -/
theorem readArguments_of_writes {spec : CommandSpec} (proper : spec.Proper) {argument : Argument}
    {texts : List String} (writes : spec.Writes argument texts) (given : Given)
    (rest : List String) :
    readArguments spec given (texts ++ rest) =
      (OptionStep.ofOption (given.add? spec.maxNames argument)).readOn spec rest := by
  cases writes with
  | switch marks =>
      have free := marks.not_mem_subcommands proper ""
      rw [String.append_empty] at free
      exact readArguments_of_step free (marks.step_alone proper given) rest
  | attached marks value =>
      have free := marks.not_mem_subcommands proper ("=" ++ value)
      rw [← String.append_assoc] at free
      exact readArguments_of_step free (marks.step_attached proper given value) rest
  | @followed s mark marks value plain =>
      have free := marks.not_mem_subcommands proper ""
      rw [String.append_empty] at free
      have waits := readArguments_of_step free (marks.step_alone proper given) (value :: rest)
      have undashed : ¬(value.toList.head? = some '-' ∧ value ≠ "-") :=
        fun ⟨dashed, other⟩ => other (plain dashed)
      rw [List.cons_append, List.cons_append, List.nil_append, waits]
      simp only [OptionUse.step, OptionStep.readOn, if_neg undashed, Given.add?]
      cases given.addSetting? s value <;> rfl
  | @joined option listed c letter s uses value visible bare =>
      have free := (CommandSpec.Marks.short listed letter).not_mem_subcommands proper value
      have chars : ("-" ++ String.singleton c ++ value).toList = '-' :: c :: value.toList := by simp
      have dashless := (proper.find?_short listed letter).2
      have step : argumentStep? spec given ("-" ++ String.singleton c ++ value) =
          some (shortStep spec given (c :: value.toList)) := argumentStep?_short chars dashless
      rw [CommandSpec.shortStep_joined proper given listed letter uses visible bare] at step
      exact readArguments_of_step free step rest
  | name plain other => exact readArguments_of_step other (argumentStep?_name plain) rest

end TableShift
