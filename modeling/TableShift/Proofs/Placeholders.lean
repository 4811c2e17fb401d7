import Mathlib.Data.List.Infix
import Mathlib.Data.List.Nodup
import TableShift.Migration.Stub

/-! # Placeholders filled at once

A stub is filled from left to right, and behind a placeholder the scan goes on in the template.
No placeholder begins inside another one, so the scan meets every placeholder there is: at each
place of the template it writes what the template alone says about this place. A stub is
accepted exactly if some place holds the code of the migration.
-/

namespace TableShift.Stub

/-! ## What stands for a place -/

/-- A mark begins at a place of a template. -/
def OccursAt (template mark : List Char) (place : Nat) : Prop :=
  mark <+: template.drop place

/-- A place belongs to a mark in a template. -/
def Covers (template mark : List Char) (place : Nat) : Prop :=
  ∃ start ≤ place, OccursAt template mark start ∧ place < start + mark.length

instance (template mark : List Char) (place : Nat) : Decidable (OccursAt template mark place) :=
  inferInstanceAs (Decidable (mark <+: template.drop place))

instance (template mark : List Char) (place : Nat) : Decidable (Covers template mark place) :=
  decidable_of_iff (∃ start < place + 1, OccursAt template mark start ∧ place < start + mark.length)
    (by simp only [Covers, Nat.lt_succ_iff])

/-- What stands for a place of a template: the values of the marks that begin there, and its
    own character if it belongs to no mark. -/
def filling (values : List (List Char × List Char)) (template : List Char) (place : Nat) :
    List Char :=
  (values.filter fun (mark, _) => OccursAt template mark place).flatMap Prod.snd ++
    if ∃ pair ∈ values, Covers template pair.1 place then [] else template[place]?.toList

/-- Marks that are no empty texts, and of which none begins where another one stands. -/
def Apart (marks : List (List Char)) : Prop :=
  marks.Nodup ∧ ∀ mark ∈ marks, mark ≠ [] ∧ ∀ other ∈ marks, ∀ inside < mark.length,
    other <+: mark.drop inside ∨ mark.drop inside <+: other → inside = 0 ∧ other = mark

instance (marks : List (List Char)) : Decidable (Apart marks) :=
  inferInstanceAs (Decidable (_ ∧ _))

theorem occursAt_append (mark rest : List Char) : OccursAt (mark ++ rest) mark 0 :=
  List.prefix_append mark rest

/-- Two marks at one place are the same, and at two places they do not meet. -/
theorem Apart.eq_or_le {marks : List (List Char)} (apart : Apart marks)
    {template mark other : List Char} (listed : mark ∈ marks) (otherListed : other ∈ marks)
    {place later : Nat} (here : OccursAt template mark place)
    (there : OccursAt template other later) (le : place ≤ later) :
    place = later ∧ mark = other ∨ place + mark.length ≤ later := by
  by_cases outside : place + mark.length ≤ later
  · exact .inr outside
  · left
    have inside : later - place < mark.length := by omega
    have rest : mark.drop (later - place) <+: template.drop later := by
      have dropped := here.drop (later - place)
      rwa [List.drop_drop, Nat.add_sub_cancel' le] at dropped
    obtain ⟨same, equal⟩ := (apart.2 mark listed).2 other otherListed _ inside
      (List.prefix_or_prefix_of_prefix there rest)
    exact ⟨by omega, equal.symm⟩

/-! ## Filling from left to right -/

variable {values : List (List Char × List Char)}

theorem mem_marks {mark value : List Char} (listed : (mark, value) ∈ values) :
    mark ∈ values.map Prod.fst :=
  List.mem_map_of_mem listed

/-- At a seam that no mark crosses, what stands behind it is filled as if it stood alone. -/
theorem filling_append {front rest : List Char}
    (seam : ∀ pair ∈ values, ∀ place < front.length, OccursAt (front ++ rest) pair.1 place →
      place + pair.1.length ≤ front.length) (place : Nat) :
    filling values (front ++ rest) (front.length + place) = filling values rest place := by
  have begins (mark : List Char) (place : Nat) :
      OccursAt (front ++ rest) mark (front.length + place) ↔ OccursAt rest mark place := by
    rw [OccursAt, OccursAt, List.drop_length_add_append]
  have covered : (∃ pair ∈ values, Covers (front ++ rest) pair.1 (front.length + place)) ↔
      ∃ pair ∈ values, Covers rest pair.1 place := by
    refine exists_congr fun pair => and_congr_right fun listed => ?_
    constructor
    · rintro ⟨start, le, here, lt⟩
      have behind : front.length ≤ start := by
        by_contra before
        have ends := seam pair listed start (by omega) here
        omega
      obtain ⟨start, rfl⟩ := Nat.exists_eq_add_of_le behind
      exact ⟨start, by omega, (begins pair.1 start).mp here, by omega⟩
    · rintro ⟨start, le, here, lt⟩
      exact ⟨front.length + start, by omega, (begins pair.1 start).mpr here, by omega⟩
  simp only [filling, begins, covered, List.getElem?_append_right (Nat.le_add_right _ _),
    Nat.add_sub_cancel_left]

theorem flatMap_filling_append {front rest : List Char}
    (seam : ∀ pair ∈ values, ∀ place < front.length, OccursAt (front ++ rest) pair.1 place →
      place + pair.1.length ≤ front.length) :
    (List.range (front ++ rest).length).flatMap (filling values (front ++ rest)) =
      (List.range front.length).flatMap (filling values (front ++ rest)) ++
        (List.range rest.length).flatMap (filling values rest) := by
  rw [List.length_append, List.range_add, List.flatMap_append, List.flatMap_map]
  simp only [filling_append seam]

section Apart

variable (apart : Apart (values.map Prod.fst))
include apart

theorem filling_of_occursAt {template mark value : List Char} {place : Nat}
    (listed : (mark, value) ∈ values) (here : OccursAt template mark place) :
    filling values template place = value := by
  have markListed := mem_marks listed
  have nonempty := List.length_pos_iff.mpr (apart.2 mark markListed).1
  have covered : ∃ pair ∈ values, Covers template pair.1 place :=
    ⟨(mark, value), listed, place, le_rfl, here, Nat.lt_add_of_pos_right nonempty⟩
  have alone : ∀ pair ∈ values, OccursAt template pair.1 place ↔ pair = (mark, value) := by
    intro pair otherListed
    constructor
    · intro there
      obtain ⟨-, same⟩ | crossed := apart.eq_or_le markListed
        (mem_marks otherListed) here there le_rfl
      · exact List.inj_on_of_nodup_map apart.1 otherListed listed same.symm
      · omega
    · rintro rfl
      exact here
  have only : (values.filter fun (mark, _) => OccursAt template mark place) = [(mark, value)] := by
    have once : values.count (mark, value) = 1 :=
      List.count_eq_one_of_mem (apart.1.of_map _) listed
    calc
      (values.filter fun (mark, _) => OccursAt template mark place)
          = values.filter (· == (mark, value)) :=
            List.filter_congr fun pair member => by
              rw [Bool.eq_iff_iff]
              simp [alone pair member]
      _ = [(mark, value)] := by rw [List.filter_beq, once, List.replicate_one]
  rw [filling, if_pos covered, only]
  simp

theorem filling_of_inside {template mark value : List Char} {start place : Nat}
    (listed : (mark, value) ∈ values) (there : OccursAt template mark start)
    (after : start < place) (before : place < start + mark.length) :
    filling values template place = [] := by
  have markListed := mem_marks listed
  have covered : ∃ pair ∈ values, Covers template pair.1 place :=
    ⟨(mark, value), listed, start, after.le, there, before⟩
  have none_here : (values.filter fun (mark, _) => OccursAt template mark place) = [] := by
    rw [List.filter_eq_nil_iff]
    rintro ⟨other, _⟩ otherListed
    simp only [decide_eq_true_eq]
    intro here
    obtain ⟨same, -⟩ | crossed :=
      apart.eq_or_le markListed (mem_marks otherListed) there here after.le
    · omega
    · omega
  rw [filling, if_pos covered, none_here]
  rfl

theorem filling_of_uncovered {template : List Char} {place : Nat}
    (uncovered : ∀ pair ∈ values, ¬ Covers template pair.1 place) :
    filling values template place = template[place]?.toList := by
  have none_here : (values.filter fun (mark, _) => OccursAt template mark place) = [] := by
    rw [List.filter_eq_nil_iff]
    rintro ⟨mark, value⟩ listed
    simp only [decide_eq_true_eq]
    intro here
    have nonempty := List.length_pos_iff.mpr (apart.2 mark (mem_marks listed)).1
    exact uncovered _ listed ⟨place, le_rfl, here, Nat.lt_add_of_pos_right nonempty⟩
  rw [filling, none_here, if_neg (by simpa using uncovered)]
  rfl

theorem flatMap_filling_mark {mark value : List Char} (listed : (mark, value) ∈ values)
    (rest : List Char) :
    (List.range mark.length).flatMap (filling values (mark ++ rest)) = value := by
  have here := occursAt_append mark rest
  obtain ⟨n, length⟩ := Nat.exists_eq_add_one_of_ne_zero
    (List.length_pos_iff.mpr (apart.2 mark (mem_marks listed)).1).ne'
  have inside : ((List.range n).map Nat.succ).flatMap (filling values (mark ++ rest)) = [] := by
    rw [List.flatMap_map, List.flatMap_eq_nil_iff]
    intro place member
    have before := List.mem_range.mp member
    exact filling_of_inside apart listed here place.succ_pos (by omega)
  rw [length, List.range_succ_eq_map, List.flatMap_cons, filling_of_occursAt apart listed here,
    inside, List.append_nil]

/-- Marks that stand apart are all replaced, and every other character is kept. -/
theorem fill_eq_flatMap (template : List Char) :
    fill values template = (List.range template.length).flatMap (filling values template) := by
  -- The scan stops only at seams: behind a mark, or behind a character where none begins.
  fun_induction fill values template with
  | case1 => rfl
  | case2 c cs mark value found ih =>
      have listed := List.mem_of_find?_eq_some found
      have here : mark <+: c :: cs := by simpa using List.find?_some found
      obtain ⟨rest, whole⟩ := here
      have nonempty := List.length_pos_iff.mpr (apart.2 mark (mem_marks listed)).1
      have behind : cs.drop (mark.length - 1) = rest :=
        calc
          cs.drop (mark.length - 1) = (c :: cs).drop (mark.length - 1 + 1) := rfl
          _ = (mark ++ rest).drop mark.length := by rw [whole, Nat.sub_add_cancel nonempty]
          _ = rest := List.drop_left
      have seam : ∀ pair ∈ values, ∀ place < mark.length,
          OccursAt (mark ++ rest) pair.1 place → place + pair.1.length ≤ mark.length := by
        intro pair otherListed place lt there
        obtain ⟨rfl, same⟩ | crossed := apart.eq_or_le (mem_marks listed) (mem_marks otherListed)
          (occursAt_append mark rest) there place.zero_le
        · rw [← same, Nat.zero_add]
        · omega
      rw [behind] at ih ⊢
      rw [← whole, flatMap_filling_append seam, flatMap_filling_mark apart listed, ih]
  | case3 c cs absent ih =>
      have unmarked : ∀ pair ∈ values, ¬ OccursAt (c :: cs) pair.1 0 := by
        intro pair listed
        simpa [OccursAt] using List.find?_eq_none.mp absent pair listed
      have seam : ∀ pair ∈ values, ∀ place < [c].length,
          OccursAt ([c] ++ cs) pair.1 place → place + pair.1.length ≤ [c].length := by
        intro pair listed place lt there
        obtain rfl : place = 0 := Nat.lt_one_iff.mp lt
        exact absurd there (unmarked pair listed)
      have uncovered : ∀ pair ∈ values, ¬ Covers ([c] ++ cs) pair.1 0 := by
        rintro pair listed ⟨start, le, here, -⟩
        obtain rfl : start = 0 := Nat.le_zero.mp le
        exact unmarked pair listed here
      have cut := flatMap_filling_append seam
      rw [List.length_singleton, List.range_one, List.flatMap_singleton,
        filling_of_uncovered apart uncovered, ← ih] at cut
      exact cut.symm

end Apart

/-! ## The placeholders of a stub -/

/-- All placeholders, for the code in both directions and the table's name. -/
def placeholders : List (List Char) :=
  (upPlaceholders ++ downPlaceholders ++ tablePlaceholders).map String.toList

theorem apart_placeholders : Apart placeholders := by
  decide +kernel

theorem map_fst_substitutions (table : String) (migration : Migration) :
    (substitutions table migration).map Prod.fst = placeholders := by
  simp [substitutions, placeholders, Function.comp_def]

theorem occursIn_iff {mark template : List Char} :
    occursIn mark template = true ↔ ∃ place, OccursAt template mark place := by
  induction template with
  | nil => simp [occursIn, OccursAt]
  | cons c cs ih =>
      rw [occursIn, Bool.or_eq_true, List.isPrefixOf_iff_prefix, ih]
      constructor
      · rintro (here | ⟨place, later⟩)
        · exact ⟨0, here⟩
        · exact ⟨place + 1, later⟩
      · rintro ⟨place, there⟩
        cases place with
        | zero => exact .inl there
        | succ place => exact .inr ⟨place, there⟩

theorem ofText?_eq_some_iff {template : String} {stub : Stub} :
    ofText? template = some stub ↔
      stub = ⟨template⟩ ∧
        ∃ mark ∈ upPlaceholders, ∃ place, OccursAt template.toList mark.toList place := by
  simp only [ofText?, List.any_eq_true, occursIn_iff, Option.ite_none_right_eq_some,
    Option.some.injEq]
  exact ⟨fun ⟨held, same⟩ => ⟨same.symm, held⟩, fun ⟨same, held⟩ => ⟨held, same.symm⟩⟩

theorem infix_joinWith {separator text : String} {texts : List String} (h : text ∈ texts) :
    text.toList <:+: (joinWith separator texts).toList := by
  induction texts with
  | nil => exact absurd h List.not_mem_nil
  | cons first texts ih =>
      cases texts with
      | nil =>
          rw [List.mem_singleton.mp h]
          exact List.infix_rfl
      | cons next texts =>
          have split : joinWith separator (first :: next :: texts) =
              first ++ separator ++ joinWith separator (next :: texts) := rfl
          rw [split, String.toList_append, String.toList_append]
          rcases List.mem_cons.mp h with rfl | later
          · exact ⟨[], _, (List.append_assoc ..).symm⟩
          · exact (ih later).trans (List.suffix_append _ _).isInfix

theorem exists_up_builtin :
    ∃ mark ∈ upPlaceholders, ∃ place, OccursAt builtin.template.toList mark.toList place := by
  have line : "\x7b\x7b up \x7d\x7d".toList <:+: "\t\t\x7b\x7b up \x7d\x7d".toList := by
    decide
  have held : "\t\t\x7b\x7b up \x7d\x7d".toList <:+: builtin.template.toList :=
    infix_joinWith (by simp)
  obtain ⟨front, rest, whole⟩ := line.trans held
  refine ⟨"\x7b\x7b up \x7d\x7d", by decide, front.length, ?_⟩
  rw [OccursAt, ← whole, List.append_assoc, List.drop_left]
  exact List.prefix_append _ rest

theorem mem_substitutions_up {mark : String} (listed : mark ∈ upPlaceholders) (table : String)
    (migration : Migration) : (mark.toList, migration.up.toList) ∈ substitutions table migration :=
  List.mem_append_left _ (List.mem_append_left _ (List.mem_map_of_mem listed))

theorem infix_render {stub : Stub} {mark value : List Char} {table : String}
    {migration : Migration} (listed : (mark, value) ∈ substitutions table migration) {place : Nat}
    (here : OccursAt stub.template.toList mark place) :
    value <:+: (stub.render table migration).toList := by
  have apart := map_fst_substitutions table migration ▸ apart_placeholders
  have inside : place < stub.template.toList.length := by
    by_contra outside
    rw [OccursAt, List.drop_eq_nil_of_le (by omega), List.prefix_nil] at here
    exact (apart.2 mark (mem_marks listed)).1 here
  rw [render, String.toList_ofList, fill_eq_flatMap apart, List.flatMap_def,
    ← filling_of_occursAt apart listed here]
  exact List.infix_of_mem_flatten (List.mem_map_of_mem (List.mem_range.mpr inside))

/-- A template with a brace too many on both sides of the placeholder for the code. -/
def bracedUp : String :=
  "\x7b\x7b\x7b up \x7d\x7d\x7d \x7b\x7bdown\x7d\x7d"

/-- Code that looks like a placeholder. -/
def nestedDown : Migration where
  up := "'\x7b\x7b down \x7d\x7d'"
  down := "D"

end TableShift.Stub
