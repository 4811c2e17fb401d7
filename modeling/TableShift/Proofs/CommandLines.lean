import TableShift.Cli.Arguments

/-! # Command lines

A command line is a list of arguments, each written in one of its ways. All of them are read if
no option is given twice, each value is acceptable, and the names are not too many; the import
then has what its arguments give in each of its fields. All other lists are a misuse.
-/

namespace TableShift

deriving instance ReflBEq, LawfulBEq for Switch

deriving instance ReflBEq, LawfulBEq for Setting

/-! ## Arguments that go together -/

namespace Argument

/-- The option that an argument uses. -/
def use? : Argument → Option OptionUse
  | switch s => some (.switch s)
  | setting s _ => some (.setting s)
  | name _ => none

def switch? : Argument → Option Switch
  | switch s => some s
  | _ => none

def setting? : Argument → Option (Setting × String)
  | setting s value => some (s, value)
  | _ => none

def name? : Argument → Option String
  | name text => some text
  | _ => none

/-- The value that an argument gives to a setting. -/
def value? (wanted : Setting) : Argument → Option String
  | setting s value => if s = wanted then some value else none
  | _ => none

/-- Whether an argument can be given at all. -/
def isProper : Argument → Bool
  | switch _ => true
  | setting s value => s.accepts value
  | name text => !text.isEmpty

end Argument

/-- Arguments that a command takes together: each option once, and not too many names. -/
structure Acceptable (maxNames : Nat) (arguments : List Argument) : Prop where
  once : (arguments.filterMap Argument.use?).Nodup
  proper : ∀ argument ∈ arguments, argument.isProper = true
  few : (arguments.filterMap Argument.name?).length ≤ maxNames

instance (maxNames : Nat) (arguments : List Argument) : Decidable (Acceptable maxNames arguments) :=
  decidable_of_iff ((arguments.filterMap Argument.use?).Nodup ∧
      (∀ argument ∈ arguments, argument.isProper = true) ∧
      (arguments.filterMap Argument.name?).length ≤ maxNames)
    ⟨fun ⟨once, proper, few⟩ => ⟨once, proper, few⟩, fun ⟨once, proper, few⟩ => ⟨once, proper, few⟩⟩

/-- How arguments are written one after the other. -/
inductive CommandSpec.WritesAll (spec : CommandSpec) : List Argument → List String → Prop where
  | nil : spec.WritesAll [] []
  | cons {argument : Argument} {arguments : List Argument} {texts rest : List String}
      (first : spec.Writes argument texts) (later : spec.WritesAll arguments rest) :
      spec.WritesAll (argument :: arguments) (texts ++ rest)

/-- What arguments have given. -/
def Given.ofAll (arguments : List Argument) : Given where
  switches := (arguments.filterMap Argument.switch?).reverse
  settings := (arguments.filterMap Argument.setting?).reverse
  names := arguments.filterMap Argument.name?

theorem Acceptable.of_append {maxNames : Nat} {before after : List Argument}
    (h : Acceptable maxNames (before ++ after)) : Acceptable maxNames before where
  once := by
    have all := h.once
    rw [List.filterMap_append] at all
    exact (List.nodup_append.mp all).1
  proper := fun argument member => h.proper argument (List.mem_append_left _ member)
  few := by
    have all := h.few
    rw [List.filterMap_append, List.length_append] at all
    omega

section Members

variable {arguments : List Argument} {s : Switch} {setting : Setting} {value : String}

theorem mem_switches_iff : s ∈ arguments.filterMap Argument.switch? ↔ .switch s ∈ arguments := by
  rw [List.mem_filterMap]
  constructor
  · rintro ⟨argument, member, found⟩
    cases argument <;> simp_all [Argument.switch?]
  · exact fun member => ⟨_, member, rfl⟩

theorem mem_settings_iff :
    (setting, value) ∈ arguments.filterMap Argument.setting? ↔ .setting setting value ∈ arguments := by
  rw [List.mem_filterMap]
  constructor
  · rintro ⟨argument, member, found⟩
    cases argument <;> simp_all [Argument.setting?]
  · exact fun member => ⟨_, member, rfl⟩

theorem switch_mem_uses_iff :
    .switch s ∈ arguments.filterMap Argument.use? ↔ .switch s ∈ arguments := by
  rw [List.mem_filterMap]
  constructor
  · rintro ⟨argument, member, found⟩
    cases argument <;> simp_all [Argument.use?]
  · exact fun member => ⟨_, member, rfl⟩

theorem setting_mem_uses_iff :
    .setting setting ∈ arguments.filterMap Argument.use? ↔
      ∃ value, .setting setting value ∈ arguments := by
  rw [List.mem_filterMap]
  constructor
  · rintro ⟨argument, member, found⟩
    cases argument <;> simp_all [Argument.use?]
    exact ⟨_, member⟩
  · exact fun ⟨_, member⟩ => ⟨_, member, rfl⟩

end Members

theorem Acceptable.append_singleton_iff {maxNames : Nat} {before : List Argument}
    (acceptable : Acceptable maxNames before) {argument : Argument} :
    Acceptable maxNames (before ++ [argument]) ↔
      (∀ use, argument.use? = some use → use ∉ before.filterMap Argument.use?) ∧
        argument.isProper = true ∧
        (before.filterMap Argument.name?).length + argument.name?.toList.length ≤ maxNames := by
  have names : (before ++ [argument]).filterMap Argument.name? =
      before.filterMap Argument.name? ++ argument.name?.toList := by
    cases argument <;> simp [Argument.name?]
  have uses : (before ++ [argument]).filterMap Argument.use? =
      before.filterMap Argument.use? ++ argument.use?.toList := by
    cases argument <;> simp [Argument.use?]
  constructor
  · rintro ⟨once, proper, few⟩
    rw [uses, List.nodup_append] at once
    rw [names, List.length_append] at few
    refine ⟨fun use used member => ?_, proper argument (by simp), few⟩
    exact once.2.2 use member use (by simp [used]) rfl
  · rintro ⟨fresh, proper, few⟩
    refine ⟨?_, ?_, ?_⟩
    · rw [uses, List.nodup_append]
      refine ⟨acceptable.once, ?_, ?_⟩
      · cases argument.use? <;> simp
      · rintro use member _ used rfl
        exact fresh use (by simpa using used) member
    · rw [List.forall_mem_append]
      exact ⟨acceptable.proper, by simpa using proper⟩
    · rwa [names, List.length_append]

section Added

variable {maxNames : Nat} {before : List Argument} (acceptable : Acceptable maxNames before)
include acceptable

theorem Acceptable.append_switch_iff {s : Switch} :
    Acceptable maxNames (before ++ [.switch s]) ↔ .switch s ∉ before := by
  rw [acceptable.append_singleton_iff, ← switch_mem_uses_iff]
  constructor
  · exact fun next => next.1 _ rfl
  · intro fresh
    refine ⟨fun use used => ?_, rfl, acceptable.few⟩
    cases used
    exact fresh

theorem Acceptable.append_setting_iff {s : Setting} {value : String} :
    Acceptable maxNames (before ++ [.setting s value]) ↔
      (¬∃ given, .setting s given ∈ before) ∧ s.accepts value = true := by
  rw [acceptable.append_singleton_iff, ← setting_mem_uses_iff]
  constructor
  · exact fun next => ⟨next.1 _ rfl, next.2.1⟩
  · rintro ⟨fresh, accepted⟩
    refine ⟨fun use used => ?_, accepted, acceptable.few⟩
    cases used
    exact fresh

theorem Acceptable.append_name_iff {text : String} :
    Acceptable maxNames (before ++ [.name text]) ↔
      text.isEmpty = false ∧ (before.filterMap Argument.name?).length < maxNames := by
  rw [acceptable.append_singleton_iff]
  simp only [Argument.use?, Argument.isProper, Argument.name?, reduceCtorEq, false_implies,
    implies_true, true_and, Bool.not_eq_true', Option.toList_some, List.length_singleton]
  rfl

/-- One more argument is added exactly if it can be given with those before it. -/
theorem Given.add?_ofAll (argument : Argument) :
    (ofAll before).add? maxNames argument =
      if Acceptable maxNames (before ++ [argument]) then some (ofAll (before ++ [argument]))
      else none := by
  have instead {p : Prop} [Decidable p] {added : Given} (same : added = ofAll (before ++ [argument]))
      (refused : p ↔ ¬Acceptable maxNames (before ++ [argument])) :
      (if p then none else some added) =
        if Acceptable maxNames (before ++ [argument]) then some (ofAll (before ++ [argument]))
        else none := by
    by_cases next : Acceptable maxNames (before ++ [argument]) <;> simp [refused, next, same]
  cases argument with
  | switch s =>
      refine instead ?_ ?_
      · simp [ofAll, Argument.switch?, Argument.setting?, Argument.name?]
      · rw [acceptable.append_switch_iff, Classical.not_not, List.contains_iff_mem, ofAll,
          List.mem_reverse, mem_switches_iff]
  | setting s value =>
      refine instead ?_ ?_
      · simp [ofAll, Argument.switch?, Argument.setting?, Argument.name?]
      · have given : (ofAll before).settings.any (·.1 == s) = true ↔
            ∃ given, .setting s given ∈ before := by
          simp only [ofAll, List.any_reverse, List.any_eq_true, beq_iff_eq, Prod.exists,
            mem_settings_iff]
          constructor
          · rintro ⟨_, value, member, rfl⟩
            exact ⟨value, member⟩
          · rintro ⟨value, member⟩
            exact ⟨s, value, member, rfl⟩
        rw [acceptable.append_setting_iff, Bool.or_eq_true, given, Classical.not_and_iff_not_or_not,
          Classical.not_not, Bool.not_eq_true', Bool.not_eq_true]
  | name text =>
      refine instead ?_ ?_
      · simp [ofAll, Argument.switch?, Argument.setting?, Argument.name?]
      · rw [acceptable.append_name_iff, Bool.or_eq_true, Classical.not_and_iff_not_or_not,
          Bool.not_eq_false, Nat.not_lt, decide_eq_true_eq, or_comm]
        rfl

end Added

/-- Arguments that can be given together are all read, whatever their order and however they
    are written. All others are a misuse. -/
theorem readArguments_of_writesAll {spec : CommandSpec} (proper : spec.Proper)
    {arguments : List Argument} {texts : List String} (writes : spec.WritesAll arguments texts)
    {before : List Argument} (acceptable : Acceptable spec.maxNames before) :
    readArguments spec (.ofAll before) texts =
      if Acceptable spec.maxNames (before ++ arguments) then .done (.ofAll (before ++ arguments))
      else .misuse := by
  induction writes generalizing before with
  | nil => simp [readArguments, acceptable]
  | @cons argument arguments texts rest first later ih =>
      rw [readArguments_of_writes proper first, Given.add?_ofAll acceptable]
      by_cases next : Acceptable spec.maxNames (before ++ [argument])
      · simp only [if_pos next, OptionStep.ofOption, OptionStep.readOn, ih next]
        simp
      · have refused : ¬ Acceptable spec.maxNames (before ++ argument :: arguments) := by
          intro all
          rw [List.append_cons] at all
          exact next all.of_append
        simp [if_neg next, if_neg refused, OptionStep.ofOption, OptionStep.readOn]

/-! ## Looking up what was given -/

section Lookup

variable {arguments : List Argument}

theorem Given.contains_switches_ofAll (s : Switch) :
    (ofAll arguments).switches.contains s = arguments.contains (.switch s) := by
  rw [Bool.eq_iff_iff, List.contains_iff_mem, List.contains_iff_mem, ofAll, List.mem_reverse,
    mem_switches_iff]

theorem Given.value?_ofAll (once : (arguments.filterMap Argument.use?).Nodup) (wanted : Setting) :
    (ofAll arguments).value? wanted = arguments.findSome? (·.value? wanted) := by
  induction arguments with
  | nil => rfl
  | cons argument arguments ih =>
      cases argument with
      | switch s => exact ih (List.nodup_cons.mp once).2
      | name text => exact ih once
      | setting s value =>
          obtain ⟨fresh, later⟩ := List.nodup_cons.mp once
          have added : (ofAll (.setting s value :: arguments)).value? wanted =
              ((ofAll arguments).value? wanted).or (if s = wanted then some value else none) := by
            simp only [ofAll, value?, List.filterMap_cons, Argument.setting?, List.reverse_cons,
              List.find?_append, Option.map_or]
            by_cases same : s = wanted <;> simp [same]
          rw [added, ih later, List.findSome?_cons]
          by_cases same : s = wanted
          · subst same
            have absent : arguments.findSome? (·.value? s) = none := by
              rw [List.findSome?_eq_none_iff]
              rintro (other | ⟨other, value⟩ | text) member
              · rfl
              · rw [Argument.value?, if_neg]
                rintro rfl
                exact fresh (setting_mem_uses_iff.mpr ⟨value, member⟩)
              · rfl
            rw [absent, Option.none_or, Argument.value?, if_pos rfl]
          · simp [same, Argument.value?]

end Lookup

namespace Invocation

/-- An import is asked for with what its arguments give: the switches that stand among them, the
    value of each setting, and the file. Arguments that cannot be given together are a misuse. -/
theorem ofArguments_of_writesAll {arguments : List Argument} {texts : List String}
    (writes : importSpec.WritesAll arguments texts) (schema : Option String) :
    ofArguments schema texts =
      if Acceptable importSpec.maxNames arguments then
        .importScript
          { file := (arguments.filterMap Argument.name?).head?
            schema := (arguments.findSome? (·.value? .schema)).or schema
            path := arguments.findSome? (·.value? .path)
            squash := arguments.contains (.switch .squash)
            name := arguments.findSome? (·.value? .name)
            stub := arguments.findSome? (·.value? .stub)
            indent := (arguments.findSome? (·.value? .indent)).bind Setting.level?
            dryRun := arguments.contains (.switch .dryRun)
            config := arguments.findSome? (·.value? .config) }
      else .misuse := by
  have empty : Acceptable importSpec.maxNames [] := by decide
  have read := readArguments_of_writesAll CommandSpec.proper_importSpec writes empty
  rw [List.nil_append] at read
  have start : Given.ofAll [] = {} := rfl
  rw [start] at read
  unfold ofArguments
  by_cases acceptable : Acceptable importSpec.maxNames arguments
  · rw [if_pos acceptable]
    rw [if_pos acceptable] at read
    simp only [read, ofImport, Given.value?_ofAll acceptable.once, Given.contains_switches_ofAll]
    rfl
  · rw [if_neg acceptable]
    rw [if_neg acceptable] at read
    simp only [read]

example : ofArguments none ["-s", "model.sql", "--indent=3", "--dry-run"] =
    .importScript { schema := some "model.sql", indent := some 3, dryRun := true } := by
  decide +kernel

end Invocation

end TableShift
