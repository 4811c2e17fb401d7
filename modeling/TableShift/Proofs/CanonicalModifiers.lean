import Mathlib.Logic.Relation
import TableShift.Proofs.ColumnAgreement

/-! # The modifiers of a column are canonical

Modifiers come in the order of their table, one for each listed name whose first option
has the value that the modifier takes, and a column without `NOT NULL` is nullable. The
first option of each listed name is all that counts: the others may move or go. An option
of the type stands before those of the column, so it is the one that counts.
-/

namespace TableShift

/-- The option is the first of its name. -/
def ColumnOption.FirstIn (option : ColumnOption) (options : List ColumnOption) : Prop :=
  ∃ before after, options = before ++ option :: after ∧
    ∀ earlier ∈ before, earlier.name ≠ option.name

namespace ColumnOption

theorem firstIn_iff_find? {option : ColumnOption} {options : List ColumnOption} {name : String} :
    option.FirstIn options ∧ option.name = name ↔
      options.find? (·.name == name) = some option := by
  rw [List.find?_eq_some_iff_append]
  constructor
  · rintro ⟨⟨before, after, split, first⟩, rfl⟩
    refine ⟨beq_self_eq_true _, before, after, split, fun earlier member => ?_⟩
    simpa using first earlier member
  · rintro ⟨named, before, after, split, first⟩
    rw [beq_iff_eq] at named
    refine ⟨⟨before, after, split, fun earlier member => ?_⟩, named⟩
    simpa [named] using first earlier member

/-- Options before others hide those of the same name. -/
theorem FirstIn.append {option : ColumnOption} {options : List ColumnOption}
    (h : option.FirstIn options) (later : List ColumnOption) :
    option.FirstIn (options ++ later) := by
  obtain ⟨before, after, split, first⟩ := h
  exact ⟨before, after ++ later, by simp [split], first⟩

end ColumnOption

/-! ## The calls -/

namespace Modifier

theorem call?_eq_none_iff (m : Modifier) (value : Option Value) :
    m.call? value = none ↔ m.takesValue = true ∧ value = none := by
  obtain ⟨option, method, argument⟩ := m
  cases argument <;> cases value <;> simp [call?, takesValue] <;> decide

/-- The call for the first option of the modifier's name. -/
def firstCall? (options : List ColumnOption) (m : Modifier) : Option ModifierCall :=
  (options.find? (·.name == m.option)).bind fun option => m.call? option.value?

theorem firstCall?_eq_some_iff {options : List ColumnOption} {m : Modifier} {call : ModifierCall} :
    m.firstCall? options = some call ↔
      ∃ option : ColumnOption, option.FirstIn options ∧ option.name = m.option ∧
        m.call? option.value? = some call := by
  simp only [firstCall?, Option.bind_eq_some_iff, ← ColumnOption.firstIn_iff_find?, and_assoc]

theorem modifier_of_firstCall? {options : List ColumnOption} {m : Modifier} {call : ModifierCall}
    (h : m.firstCall? options = some call) : call.modifier = m := by
  obtain ⟨option, _, _, made⟩ := firstCall?_eq_some_iff.mp h
  exact modifier_of_call? made

/-- The modifier of a column that may be `NULL`. -/
def nullable : Modifier := ⟨"NOT NULL", "nullable", .none⟩

end Modifier

/-- The calls for the options that are present. -/
def presentCalls (options : List ColumnOption) : List ModifierCall :=
  presentModifiers.filterMap (Modifier.firstCall? options)

/-- The call for an absent `NOT NULL`. -/
def nullableCalls (options : List ColumnOption) : List ModifierCall :=
  if ∃ option ∈ options, option.name = "NOT NULL" then [] else [⟨Modifier.nullable, ""⟩]

theorem modifierCalls_eq_append (options : List ColumnOption) :
    modifierCalls options = presentCalls options ++ nullableCalls options := by
  have present : presentCalls options = presentModifiers.filterMap fun m =>
      (options.find? (·.name == m.option)).bind fun option => m.call? option.value? := rfl
  have found : (options.find? (·.name == "NOT NULL")).isNone ↔
      ¬∃ option ∈ options, option.name = "NOT NULL" := by simp
  simp only [modifierCalls, present, nullableCalls, absentModifiers]
  congr 1
  by_cases required : ∃ option ∈ options, option.name = "NOT NULL"
  · rw [if_pos required, List.filter_cons_of_neg (by simpa only [found, not_not])]
    rfl
  · rw [if_neg required, List.filter_cons_of_pos (by simpa only [found])]
    rfl

theorem map_modifier_filterMap {options : List ColumnOption} (ms : List Modifier) :
    ((ms.filterMap (Modifier.firstCall? options)).map ModifierCall.modifier).Sublist ms := by
  induction ms with
  | nil => exact .slnil
  | cons m ms ih =>
      cases made : m.firstCall? options with
      | none =>
          rw [List.filterMap_cons_none made]
          exact ih.cons m
      | some call =>
          rw [List.filterMap_cons_some made, List.map_cons, Modifier.modifier_of_firstCall? made]
          exact ih.cons_cons m

theorem mem_presentCalls {options : List ColumnOption} {call : ModifierCall} :
    call ∈ presentCalls options ↔
      call.modifier ∈ presentModifiers ∧ call.modifier.firstCall? options = some call := by
  rw [presentCalls, List.mem_filterMap]
  constructor
  · rintro ⟨m, listed, made⟩
    rw [Modifier.modifier_of_firstCall? made]
    exact ⟨listed, made⟩
  · rintro ⟨listed, made⟩
    exact ⟨call.modifier, listed, made⟩

theorem Modifier.nullable_not_mem_presentModifiers : Modifier.nullable ∉ presentModifiers := by
  have names : ∀ m ∈ presentModifiers, m.option ≠ "NOT NULL" := by decide
  intro member
  exact names Modifier.nullable member rfl

theorem code_ne_nullable {options : List ColumnOption} {call : ModifierCall}
    (member : call ∈ presentCalls options) : call.code ≠ "->nullable()" := by
  have listed := (mem_presentCalls.mp member).1
  intro same
  have nullable : call = ⟨Modifier.nullable, ""⟩ := by
    apply ModifierCall.code_injective (List.mem_append_left _ listed)
    · exact List.mem_append_right _ (List.mem_singleton_self _)
    · exact same
  rw [nullable] at listed
  exact Modifier.nullable_not_mem_presentModifiers listed

theorem modifier_of_nullableCalls {options : List ColumnOption} {call : ModifierCall}
    (member : call ∈ nullableCalls options) : call.modifier = Modifier.nullable := by
  unfold nullableCalls at member
  split at member
  · exact absurd member List.not_mem_nil
  · rw [List.mem_singleton.mp member]

/-! ## Options that do not count -/

/-- The modifiers look for an option of this name. -/
def ColumnOption.Listed (name : String) : Prop :=
  ∃ m ∈ presentModifiers ++ absentModifiers, m.option = name

/-- A change of the options of a column that its modifiers do not see. -/
inductive OptionChange : List ColumnOption → List ColumnOption → Prop
  /-- The options come in another order, those of one name in the same. -/
  | reorder {xs ys : List ColumnOption} (perm : xs.Perm ys)
      (stable : ∀ name : String, xs.filter (·.name == name) = ys.filter (·.name == name)) :
      OptionChange xs ys
  /-- An option goes that comes after another of its name. -/
  | duplicate (before after : List ColumnOption) {option : ColumnOption}
      (repeated : ∃ earlier ∈ before, earlier.name = option.name) :
      OptionChange (before ++ option :: after) (before ++ after)
  /-- An option goes whose name is in neither table. -/
  | unlisted (before after : List ColumnOption) {option : ColumnOption}
      (unknown : ¬ColumnOption.Listed option.name) :
      OptionChange (before ++ option :: after) (before ++ after)

namespace OptionChange

theorem swap (before after : List ColumnOption) {x y : ColumnOption} (different : x.name ≠ y.name) :
    OptionChange (before ++ x :: y :: after) (before ++ y :: x :: after) := by
  refine .reorder ((List.Perm.swap y x after).append_left before) fun name => ?_
  rw [List.filter_append, List.filter_append]
  congr 1
  by_cases here : x.name = name
  · have other : y.name ≠ name := fun same => different (here.trans same.symm)
    simp [here, other]
  · simp [here, List.filter_cons]

/-- A change leaves the first option of each listed name. -/
theorem find?_eq {xs ys : List ColumnOption} (change : OptionChange xs ys) {name : String}
    (listed : ColumnOption.Listed name) :
    xs.find? (·.name == name) = ys.find? (·.name == name) := by
  cases change with
  | reorder perm stable => rw [← List.head?_filter, stable, List.head?_filter]
  | @duplicate before after option repeated =>
      obtain ⟨earlier, member, same⟩ := repeated
      rw [List.find?_append, List.find?_append]
      by_cases here : option.name = name
      · have found : (before.find? (·.name == name)).isSome := by
          rw [List.find?_isSome]
          exact ⟨earlier, member, by simp [same, here]⟩
        obtain ⟨first, found⟩ := Option.isSome_iff_exists.mp found
        simp [found]
      · rw [List.find?_cons_of_neg (by simpa using here)]
  | @unlisted before after option unknown =>
      have other : option.name ≠ name := fun same => unknown (same ▸ listed)
      rw [List.find?_append, List.find?_append, List.find?_cons_of_neg (by simpa using other)]

theorem modifierCalls_eq {xs ys : List ColumnOption} (change : OptionChange xs ys) :
    modifierCalls xs = modifierCalls ys := by
  apply modifierCalls_of_find?
  intro m listed
  exact change.find?_eq ⟨m, listed, rfl⟩

theorem modifierCalls_eq_of_changes {xs ys : List ColumnOption}
    (changes : Relation.ReflTransGen OptionChange xs ys) : modifierCalls xs = modifierCalls ys := by
  induction changes with
  | refl => rfl
  | tail _ change ih => exact ih.trans change.modifierCalls_eq

end OptionChange

/-! ## The modifiers of a column -/

namespace Field

variable {field : Field} {type : ColumnType}

theorem mergedOptions_eq (typed : field.type = some type) :
    field.mergedOptions = type.options ++ field.options := by
  simp [mergedOptions, typed]

/-- An option of the type counts, whatever the column has of its name. -/
theorem firstCall?_mergedOptions (typed : field.type = some type) {m : Modifier}
    {option : ColumnOption} (first : option.FirstIn type.options) (named : option.name = m.option) :
    m.firstCall? field.mergedOptions = m.call? option.value? := by
  have found : field.mergedOptions.find? (·.name == m.option) = some option := by
    rw [← ColumnOption.firstIn_iff_find?, mergedOptions_eq typed]
    exact ⟨first.append _, named⟩
  simp [Modifier.firstCall?, found]

theorem mem_modifierCalls_of_type (typed : field.type = some type) {m : Modifier}
    (listed : m ∈ presentModifiers) {option : ColumnOption} (first : option.FirstIn type.options)
    (named : option.name = m.option) (call : ModifierCall) :
    call ∈ modifierCalls field.mergedOptions ∧ call.modifier = m ↔
      m.call? option.value? = some call := by
  rw [← firstCall?_mergedOptions typed first named, modifierCalls_eq_append, List.mem_append]
  constructor
  · rintro ⟨member | member, rfl⟩
    · exact (mem_presentCalls.mp member).2
    · have nullable : call.modifier = Modifier.nullable := modifier_of_nullableCalls member
      exact absurd (nullable ▸ listed) Modifier.nullable_not_mem_presentModifiers
  · intro made
    have modifier := Modifier.modifier_of_firstCall? made
    exact ⟨.inl (List.mem_filterMap.mpr ⟨m, listed, made⟩), modifier⟩

theorem modifierCalls_unrepeated (typed : field.type = some type) :
    modifierCalls field.mergedOptions =
      modifierCalls (type.options ++
        field.options.filter fun option => type.options.all (·.name != option.name)) := by
  rw [mergedOptions_eq typed]
  apply modifierCalls_of_find?
  intro m _
  rw [List.find?_append, List.find?_append]
  cases found : type.options.find? (·.name == m.option) with
  | some first => rfl
  | none =>
      rw [find?_filter_of_kept]
      intro option named
      rw [List.find?_eq_none] at found
      rw [List.all_eq_true]
      intro other member
      simpa [beq_iff_eq.mp named] using found other member

end Field

/-- The calls for the options are one for each listed name that occurs and whose first option
    has the value it needs, in the order of the table, and last, once and only for a column
    without `NOT NULL`, the one that makes it nullable. They stay the same when options of
    different names change places, when an option goes that repeats a name before it or whose
    name is in no table, and an option of the type counts before one of the column. -/
theorem modifierCalls_canonical (options : List ColumnOption) :
    (∃ calls : List ModifierCall,
      (∀ call, call ∈ calls ↔ call.modifier ∈ presentModifiers ∧
        ∃ option : ColumnOption, option.FirstIn options ∧ option.name = call.modifier.option ∧
          call.modifier.call? option.value? = some call) ∧
      (∀ (m : Modifier) (value : Option Value),
        m.call? value = none ↔ m.takesValue = true ∧ value = none) ∧
      (calls.map ModifierCall.modifier).Sublist presentModifiers ∧
      (∀ call ∈ calls, call.code ≠ "->nullable()") ∧
      (modifierCalls options).map ModifierCall.code = calls.map ModifierCall.code ++
        if ∃ option ∈ options, option.name = "NOT NULL" then [] else ["->nullable()"]) ∧
    (∀ others, Relation.ReflTransGen OptionChange options others →
      modifierCalls others = modifierCalls options) ∧
    (∀ (field : Field) (type : ColumnType), field.type = some type →
      modifierCalls field.mergedOptions =
        modifierCalls (type.options ++
          field.options.filter fun option => type.options.all (·.name != option.name)) ∧
      ∀ m ∈ presentModifiers, ∀ option : ColumnOption, option.FirstIn type.options →
        option.name = m.option → ∀ call,
          call ∈ modifierCalls field.mergedOptions ∧ call.modifier = m ↔
            m.call? option.value? = some call) := by
  refine ⟨⟨presentCalls options, ?_, Modifier.call?_eq_none_iff, map_modifier_filterMap _,
    fun call => code_ne_nullable, ?_⟩, ?_, ?_⟩
  · intro call
    rw [mem_presentCalls, Modifier.firstCall?_eq_some_iff]
  · rw [modifierCalls_eq_append, List.map_append, nullableCalls]
    congr 1
    split <;> rfl
  · intro others changes
    exact (OptionChange.modifierCalls_eq_of_changes changes).symm
  · intro field type typed
    refine ⟨Field.modifierCalls_unrepeated typed, ?_⟩
    intro m listed option first named call
    exact Field.mem_modifierCalls_of_type typed listed first named call

/-- A default that is repeated, and an option that stands before or after another. -/
theorem modifierCalls_canonical_repeated :
    modifierCalls [.keyValue "DEFAULT" (.number "1"), .flag "NOT NULL", .keyValue "DEFAULT" .null] =
        modifierCalls [.flag "NOT NULL", .keyValue "DEFAULT" (.number "1")] ∧
      (modifierCalls [.flag "NOT NULL", .keyValue "DEFAULT" (.number "1")]).map ModifierCall.code =
        ["->default(\"1\")"] := by
  refine ⟨?_, by decide +kernel⟩
  have repeated : OptionChange
      [.keyValue "DEFAULT" (.number "1"), .flag "NOT NULL", .keyValue "DEFAULT" .null]
      [.keyValue "DEFAULT" (.number "1"), .flag "NOT NULL"] :=
    .duplicate [.keyValue "DEFAULT" (.number "1"), .flag "NOT NULL"] []
      ⟨_, List.mem_cons_self, rfl⟩
  have moved : OptionChange [.keyValue "DEFAULT" (.number "1"), .flag "NOT NULL"]
      [.flag "NOT NULL", .keyValue "DEFAULT" (.number "1")] :=
    .swap [] [] (by decide)
  obtain ⟨_, unchanged, _⟩ := modifierCalls_canonical
    [.keyValue "DEFAULT" (.number "1"), .flag "NOT NULL", .keyValue "DEFAULT" .null]
  exact (unchanged _ ((Relation.ReflTransGen.single repeated).tail moved)).symm

end TableShift
