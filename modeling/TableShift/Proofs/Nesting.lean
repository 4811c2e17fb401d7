import Mathlib.Algebra.BigOperators.Group.List.Basic
import Mathlib.Data.Nat.Find
import TableShift.Proofs.OptionSteps

/-! # Nested parentheses

The balance of lexemes is the number of parentheses they open less those they close. Along
balanced lexemes it never sinks below zero, and it ends at zero. A group ends at the first
closing parenthesis at which the balance is zero again, and a list is divided at the commas
before which it is zero. So neither the end of a group nor the parts of a list depend on how
deep the parentheses between them are nested.
-/

namespace TableShift

namespace Lexeme

/-! ## Balance -/

/-- What a lexeme adds to the number of open parentheses. -/
def turn (l : Lexeme) : Int :=
  if l.token.isPunct '(' then 1 else if l.token.isPunct ')' then -1 else 0

/-- The number of parentheses that lexemes open, less those that they close. -/
def balance : List Lexeme → Int
  | [] => 0
  | l :: ls => l.turn + balance ls

@[simp]
theorem balance_nil : balance [] = 0 :=
  rfl

@[simp]
theorem balance_cons (l : Lexeme) (ls : List Lexeme) : balance (l :: ls) = l.turn + balance ls :=
  rfl

@[simp]
theorem balance_append (xs ys : List Lexeme) : balance (xs ++ ys) = balance xs + balance ys := by
  induction xs with
  | nil => simp
  | cons l xs ih => rw [List.cons_append, balance_cons, balance_cons, ih, add_assoc]

section Turns

variable {l : Lexeme}

theorem turn_open (opens : l.token = .punct '(') : l.turn = 1 := by
  simp [turn, opens, Token.isPunct]

theorem turn_close (closes : l.token = .punct ')') : l.turn = -1 := by
  simp [turn, closes, Token.isPunct]

theorem turn_flat (flat : l.Flat) : l.turn = 0 := by
  simp [turn, flat.1, flat.2]

end Turns

/-- The balance never sinks below a floor along the lexemes. -/
def StaysAbove (floor : Int) (ls : List Lexeme) : Prop :=
  ∀ front, front <+: ls → floor ≤ balance front

namespace StaysAbove

variable {floor : Int} {xs ys : List Lexeme}

theorem nil_iff : StaysAbove floor [] ↔ floor ≤ 0 := by
  simp [StaysAbove]

theorem cons_iff {l : Lexeme} :
    StaysAbove floor (l :: xs) ↔ floor ≤ 0 ∧ StaysAbove (floor - l.turn) xs := by
  constructor
  · intro h
    refine ⟨h [] List.nil_prefix, ?_⟩
    intro front begins
    have whole := h (l :: front) (List.cons_prefix_cons.mpr ⟨rfl, begins⟩)
    rw [balance_cons] at whole
    omega
  · rintro ⟨start, rest⟩ front begins
    rcases List.prefix_cons_iff.mp begins with rfl | ⟨front, rfl, inside⟩
    · exact start
    · have later := rest front inside
      rw [balance_cons]
      omega

theorem cons_flat {l : Lexeme} (flat : l.Flat) :
    StaysAbove floor (l :: xs) ↔ floor ≤ 0 ∧ StaysAbove floor xs := by
  rw [cons_iff, turn_flat flat, sub_zero]

theorem cons_open {depth : Nat} {l : Lexeme} (opens : l.token = .punct '(') :
    StaysAbove (-depth) (l :: xs) ↔ StaysAbove (-(depth + 1 : Nat)) xs := by
  have floor : -(depth : Int) - 1 = -((depth + 1 : Nat) : Int) := by omega
  rw [cons_iff, turn_open opens, floor]
  exact and_iff_right (by omega)

theorem cons_close {depth : Nat} {l : Lexeme} (closes : l.token = .punct ')') :
    StaysAbove (-depth) (l :: xs) ↔ ∃ less, depth = less + 1 ∧ StaysAbove (-(less : Nat)) xs := by
  rw [cons_iff, turn_close closes]
  constructor
  · rintro ⟨-, above⟩
    have start := above [] List.nil_prefix
    rw [balance_nil] at start
    obtain ⟨less, rfl⟩ : ∃ less, depth = less + 1 := ⟨depth - 1, by omega⟩
    have floor : -((less + 1 : Nat) : Int) - -1 = -(less : Int) := by omega
    exact ⟨less, rfl, floor ▸ above⟩
  · rintro ⟨less, rfl, above⟩
    have floor : -((less + 1 : Nat) : Int) - -1 = -(less : Int) := by omega
    exact ⟨by omega, floor ▸ above⟩

theorem front (h : StaysAbove floor ys) (begins : xs <+: ys) : StaysAbove floor xs :=
  fun front start => h front (start.trans begins)

theorem of_append (h : StaysAbove floor (xs ++ ys)) : StaysAbove (floor - balance xs) ys := by
  intro front begins
  have whole := h (xs ++ front) ((List.prefix_append_right_inj xs).mpr begins)
  rw [balance_append] at whole
  omega

end StaysAbove

namespace Closes

/-- Lexemes close as many parentheses too many as their balance sinks, and no more on the way. -/
theorem of_balance {depth : Nat} {ls : List Lexeme} (level : balance ls = -depth)
    (above : StaysAbove (-depth) ls) : Closes depth ls := by
  induction ls generalizing depth with
  | nil =>
      have zero : depth = 0 := by
        rw [balance_nil] at level
        omega
      subst zero
      exact .balanced .nil
  | cons l ls ih =>
      rw [balance_cons] at level
      rcases l.opens_or_closes_or_flat with opens | closes | flat
      · rw [turn_open opens] at level
        exact open_cons opens (ih (by omega) ((StaysAbove.cons_open opens).mp above))
      · obtain ⟨less, rfl, behind⟩ := (StaysAbove.cons_close closes).mp above
        rw [turn_close closes] at level
        exact .close .nil closes (ih (by omega) behind)
      · rw [turn_flat flat, zero_add] at level
        exact (ih level ((StaysAbove.cons_flat flat).mp above).2).flat_cons flat

end Closes

theorem staysAbove_balanced_append {floor : Int} {xs : List Lexeme} (h : Balanced xs)
    (start : floor ≤ 0) (ys : List Lexeme) :
    StaysAbove floor (xs ++ ys) ↔ StaysAbove floor ys := by
  induction h generalizing floor ys with
  | nil => rfl
  | flat flat _ ih =>
      rw [List.cons_append, StaysAbove.cons_flat flat, ih start]
      exact and_iff_right start
  | group opens _ closes _ inner_ih ih =>
      rw [List.cons_append, List.append_assoc, List.cons_append, StaysAbove.cons_iff,
        turn_open opens, inner_ih (by omega), StaysAbove.cons_iff, turn_close closes,
        sub_neg_eq_add, sub_add_cancel, ih start]
      exact ⟨fun h => h.2.2, fun h => ⟨start, by omega, h⟩⟩

theorem balance_of_balanced {ls : List Lexeme} (h : Balanced ls) : balance ls = 0 := by
  induction h with
  | nil => rfl
  | flat flat _ ih => rw [balance_cons, turn_flat flat, ih, add_zero]
  | group opens _ closes _ inner_ih ih =>
      rw [balance_cons, balance_append, balance_cons, turn_open opens, turn_close closes, inner_ih,
        ih]
      rfl

theorem balanced_iff_balance {ls : List Lexeme} :
    Balanced ls ↔ balance ls = 0 ∧ StaysAbove 0 ls := by
  constructor
  · intro h
    have start : StaysAbove 0 [] := StaysAbove.nil_iff.mpr (Int.le_refl 0)
    have above := (staysAbove_balanced_append h (Int.le_refl 0) []).mpr start
    rw [List.append_nil] at above
    exact ⟨balance_of_balanced h, above⟩
  · rintro ⟨level, above⟩
    have closes : Closes 0 ls := Closes.of_balance level above
    cases closes with
    | balanced h => exact h

/-! ## The end of a group -/

/-- A closing parenthesis at a place brings the balance back to zero. -/
structure ClosesAt (ls : List Lexeme) (place : Nat) : Prop where
  mark : ∃ l ∈ ls[place]?, l.token = .punct ')'
  level : balance (ls.take (place + 1)) = 0

instance (ls : List Lexeme) (place : Nat) : Decidable (ClosesAt ls place) :=
  decidable_of_iff ((∃ l ∈ ls[place]?, l.token = .punct ')') ∧ balance (ls.take (place + 1)) = 0)
    ⟨fun h => ⟨h.1, h.2⟩, fun h => ⟨h.mark, h.level⟩⟩

section Group

variable {opening : Lexeme} {ls : List Lexeme} (opens : opening.token = .punct '(')
include opens

/-- The step of the count: as long as nothing closes the group, no parenthesis too many is
    closed inside it. -/
theorem staysAbove_take {count : Nat} (h : ∀ place ≤ count, ¬ ClosesAt (opening :: ls) place) :
    StaysAbove 0 (ls.take count) := by
  induction count with
  | zero => exact StaysAbove.nil_iff.mpr (Int.le_refl 0)
  | succ count ih =>
      have before : StaysAbove 0 (ls.take count) :=
        ih fun place within => h place (Nat.le_succ_of_le within)
      cases next : ls[count]? with
      | none =>
          have ended := List.getElem?_eq_none_iff.mp next
          rwa [List.take_of_length_le (by omega), ← List.take_of_length_le ended]
      | some l =>
          have step : ls.take (count + 1) = ls.take count ++ [l] := by
            rw [List.take_add_one, next, Option.toList_some]
          have level := before (ls.take count) (List.prefix_refl _)
          have above : 0 ≤ balance (ls.take count) + l.turn := by
            rcases l.opens_or_closes_or_flat with opens' | closes | flat
            · rw [turn_open opens']
              omega
            · by_contra sunk
              rw [turn_close closes] at sunk
              apply h (count + 1) (Nat.le_refl _)
              refine ⟨⟨l, next, closes⟩, ?_⟩
              rw [List.take_succ_cons, step, balance_cons, balance_append, balance_cons,
                balance_nil, turn_open opens, turn_close closes]
              omega
            · rw [turn_flat flat]
              omega
          rw [step]
          intro front begins
          rcases List.prefix_concat_iff.mp begins with rfl | earlier
          · rw [balance_append, balance_cons, balance_nil, add_zero]
            exact above
          · exact before front earlier

theorem exists_place_of_closesAt {place : Nat} (h : ClosesAt (opening :: ls) place)
    (first : ∀ earlier < place, ¬ ClosesAt (opening :: ls) earlier) :
    ∃ count closing, place = count + 1 ∧ ls[count]? = some closing ∧
      closing.token = .punct ')' ∧ Balanced (ls.take count) := by
  obtain ⟨⟨closing, found, closes⟩, level⟩ := h
  cases place with
  | zero =>
      rw [List.getElem?_cons_zero, Option.mem_some_iff] at found
      rw [← found, opens] at closes
      exact absurd closes (by decide)
  | succ count =>
      rw [List.getElem?_cons_succ] at found
      have above : StaysAbove 0 (ls.take count) :=
        staysAbove_take opens fun earlier within => first earlier (Nat.lt_succ_of_le within)
      rw [List.take_succ_cons, List.take_add_one, found, balance_cons, balance_append,
        turn_open opens, Option.toList_some, balance_cons, balance_nil, turn_close closes] at level
      exact ⟨count, closing, rfl, found, closes, balanced_iff_balance.mpr ⟨by omega, above⟩⟩

end Group

end Lexeme

namespace Cursor

open Lexeme

theorem splitClose_eq_none_iff {depth : Nat} {ls : List Lexeme} :
    splitClose depth ls = none ↔ StaysAbove (-depth) ls := by
  induction ls generalizing depth with
  | nil =>
      rw [StaysAbove.nil_iff]
      exact iff_of_true rfl (by omega)
  | cons l ls ih =>
      rcases l.opens_or_closes_or_flat with opens | closes | flat
      · rw [splitClose_open _ _ opens, Option.map_eq_none_iff, ih, StaysAbove.cons_open opens]
      · rw [StaysAbove.cons_close closes]
        cases depth with
        | zero =>
            rw [splitClose_end _ closes]
            exact iff_of_false (by simp) (by simp)
        | succ depth =>
            rw [splitClose_close _ _ closes, Option.map_eq_none_iff, ih]
            simp
      · rw [splitClose_flat _ _ flat, Option.map_eq_none_iff, ih, StaysAbove.cons_flat flat]
        exact (and_iff_right (by omega)).symm

/-- The counter of the reader is the balance: it never has to be cut off at zero. -/
theorem foldl_depthAfter_eq_balance {depth : Nat} {ls : List Lexeme}
    (h : StaysAbove (-depth) ls) : (ls.foldl depthAfter depth : Nat) = depth + balance ls := by
  induction ls generalizing depth with
  | nil => simp
  | cons l ls ih =>
      rw [List.foldl_cons, balance_cons]
      rcases l.opens_or_closes_or_flat with opens | closes | flat
      · rw [turn_open opens, depthAfter_open opens, ih ((StaysAbove.cons_open opens).mp h)]
        omega
      · obtain ⟨less, rfl, above⟩ := (StaysAbove.cons_close closes).mp h
        rw [turn_close closes, depthAfter_close closes, ih above]
        omega
      · have above := ((StaysAbove.cons_flat flat).mp h).2
        rw [turn_flat flat, depthAfter_flat flat, ih above, zero_add]

theorem group_of_closesAt {c : Cursor} {place : Nat} (opened : c.atPunct '(' = true)
    (h : ClosesAt c.rest place) (first : ∀ earlier < place, ¬ ClosesAt c.rest earlier) :
    0 < place ∧ place < c.rest.length ∧
      c.group = .ok (c.rest.extract 1 place, { c with rest := c.rest.drop (place + 1) }) ∧
      Balanced (c.rest.extract 1 place) := by
  obtain ⟨rest, stop⟩ := c
  obtain ⟨opening, ls, rfl, opens⟩ := exists_of_opensGroup opened
  obtain ⟨count, closing, rfl, found, closes, balanced⟩ := exists_place_of_closesAt opens h first
  have within := (List.getElem?_eq_some_iff.mp found).1
  have inside : (opening :: ls).extract 1 (count + 1) = ls.take count := by
    simp [List.extract]
  have split : ls = ls.take count ++ closing :: ls.drop (count + 1) := by
    have next : ls.drop count = closing :: ls.drop (count + 1) := by
      rw [List.drop_eq_getElem?_toList_append, found]
      rfl
    rw [← next, List.take_append_drop]
  have read := group_balanced opens balanced closes (ls.drop (count + 1)) stop
  rw [← split] at read
  rw [inside]
  exact ⟨Nat.succ_pos count, Nat.succ_lt_succ within, read, balanced⟩

theorem group_of_open {c : Cursor} (opened : c.atPunct '(' = true)
    (h : ∀ place, ¬ ClosesAt c.rest place) : c.group = .error ⟨c.stop, .unbalancedParentheses⟩ := by
  obtain ⟨rest, stop⟩ := c
  obtain ⟨opening, ls, rfl, opens⟩ := exists_of_opensGroup opened
  have above : StaysAbove 0 (ls.take ls.length) :=
    staysAbove_take opens fun place _ => h place
  rw [List.take_length] at above
  have unclosed : splitClose 0 ls = none := splitClose_eq_none_iff.mpr above
  simp [group, opened, unclosed]

/-- As long as nothing closes the group, at least one parenthesis is open, and the reader goes on
    behind the lexemes read so far with the others on its counter. -/
theorem exists_counter {c : Cursor} {count : Nat} (opened : c.atPunct '(' = true)
    (start : 0 < count) (h : ∀ place < count, ¬ ClosesAt c.rest place) :
    ∃ others : Nat, balance (c.rest.take count) = others + 1 ∧
      splitClose 0 c.rest.tail = (splitClose others (c.rest.drop count)).map fun split =>
        (c.rest.extract 1 count ++ split.1, split.2) := by
  obtain ⟨rest, stop⟩ := c
  obtain ⟨opening, ls, rfl, opens⟩ := exists_of_opensGroup opened
  obtain ⟨read, rfl⟩ : ∃ read, count = read + 1 := ⟨count - 1, by omega⟩
  have above : StaysAbove 0 (ls.take read) :=
    staysAbove_take opens fun place within => h place (Nat.lt_succ_of_le within)
  have unclosed : splitClose 0 (ls.take read) = none := splitClose_eq_none_iff.mpr above
  have counter : ((ls.take read).foldl depthAfter 0 : Nat) = (0 : Nat) + balance (ls.take read) :=
    foldl_depthAfter_eq_balance above
  refine ⟨(ls.take read).foldl depthAfter 0, ?_, ?_⟩
  · rw [List.take_succ_cons, balance_cons, turn_open opens]
    omega
  · have behind := splitClose_of_open unclosed (ls.drop read)
    rw [List.take_append_drop] at behind
    rw [List.tail_cons, behind]
    simp [List.extract]

end Cursor

/-! ## The parts of a list -/

namespace Lexeme

/-- A comma stands at a place outside of parentheses. -/
structure CutAt (ls : List Lexeme) (place : Nat) : Prop where
  mark : ∃ l ∈ ls[place]?, l.token = .punct ','
  level : balance (ls.take place) = 0

/-- No comma stands where the balance, counted from a level on, is zero. -/
def UncutFrom (level : Int) (ls : List Lexeme) : Prop :=
  ∀ place, ∀ l ∈ ls[place]?, l.token = .punct ',' → level + balance (ls.take place) ≠ 0

theorem uncutFrom_zero_iff {ls : List Lexeme} : UncutFrom 0 ls ↔ ∀ place, ¬ CutAt ls place := by
  constructor
  · rintro h place ⟨⟨l, found, mark⟩, level⟩
    apply h place l found mark
    rw [level, add_zero]
  · intro h place l found mark level
    rw [zero_add] at level
    exact h place ⟨⟨l, found, mark⟩, level⟩

theorem uncutFrom_cons {level : Int} {l : Lexeme} {ls : List Lexeme} :
    UncutFrom level (l :: ls) ↔
      (l.token = .punct ',' → level ≠ 0) ∧ UncutFrom (level + l.turn) ls := by
  constructor
  · intro h
    refine ⟨fun mark => ?_, fun place other found mark => ?_⟩
    · simpa using h 0 l rfl mark
    · have later := h (place + 1) other found mark
      rwa [List.take_succ_cons, balance_cons, ← add_assoc] at later
  · rintro ⟨first, rest⟩ place other found mark
    cases place with
    | zero =>
        rw [List.getElem?_cons_zero, Option.mem_some_iff] at found
        simpa using first (found ▸ mark)
    | succ place =>
        have later := rest place other found mark
        rwa [List.take_succ_cons, balance_cons, ← add_assoc]

theorem uncutFrom_nil (level : Int) : UncutFrom level [] := by
  intro place l found
  simp at found

theorem ne_comma_of_turn {l : Lexeme} (h : l.turn ≠ 0) : l.token ≠ .punct ',' := by
  intro mark
  apply h
  simp [turn, mark, Token.isPunct]

theorem uncutFrom_balanced_append {level : Int} {xs : List Lexeme} (h : Balanced xs)
    (opened : 0 < level) (ys : List Lexeme) : UncutFrom level (xs ++ ys) ↔ UncutFrom level ys := by
  induction h generalizing level ys with
  | nil => rfl
  | flat flat _ ih =>
      rw [List.cons_append, uncutFrom_cons, turn_flat flat, add_zero, ih opened]
      exact and_iff_right fun _ => by omega
  | group opens _ closes _ inner_ih ih =>
      rw [List.cons_append, List.append_assoc, List.cons_append, uncutFrom_cons, turn_open opens,
        inner_ih (by omega), uncutFrom_cons, turn_close closes, add_neg_cancel_right, ih opened]
      exact ⟨fun h => h.2.2, fun h => ⟨fun _ => by omega, fun _ => by omega, h⟩⟩

/-- Lexemes belong to one part exactly if they are balanced and no comma stands outside of
    their parentheses. -/
theorem solid_iff {ls : List Lexeme} : Solid ls ↔ Balanced ls ∧ UncutFrom 0 ls := by
  constructor
  · intro h
    refine ⟨h.balanced, ?_⟩
    induction h with
    | nil => exact uncutFrom_nil 0
    | flat flat uncut _ ih =>
        rw [uncutFrom_cons, turn_flat flat, add_zero]
        refine ⟨fun mark => ?_, ih⟩
        simp [mark, Token.isPunct] at uncut
    | group opens inner closes _ ih =>
        have mark := ne_comma_of_turn (by rw [turn_open opens]; decide)
        have mark' := ne_comma_of_turn (by rw [turn_close closes]; decide)
        rw [uncutFrom_cons, turn_open opens, zero_add, uncutFrom_balanced_append inner (by decide),
          uncutFrom_cons, turn_close closes]
        exact ⟨fun h => absurd h mark, fun h => absurd h mark', ih⟩
  · rintro ⟨balanced, uncut⟩
    induction balanced with
    | nil => exact .nil
    | flat flat _ ih =>
        rw [uncutFrom_cons, turn_flat flat, add_zero] at uncut
        refine .flat flat (Bool.eq_false_iff.mpr fun mark => ?_) (ih uncut.2)
        exact uncut.1 (Token.isPunct_iff.mp mark) rfl
    | group opens inner closes _ _ ih =>
        rw [uncutFrom_cons, turn_open opens, zero_add, uncutFrom_balanced_append inner (by decide),
          uncutFrom_cons, turn_close closes] at uncut
        exact .group opens inner closes (ih uncut.2.2)

theorem Separated.joinFirst {parts : List (List Lexeme)} {ls : List Lexeme} (h : Separated parts ls)
    (front : List Lexeme) : Separated (joinFirst front parts) (front ++ ls) := by
  cases h with
  | one => exact .one _
  | cons part mark rest =>
      rw [← List.append_assoc]
      exact .cons (front ++ part) mark rest

theorem separated_splitCommas (depth : Nat) (ls : List Lexeme) :
    Separated (splitCommas depth ls) ls := by
  induction ls generalizing depth with
  | nil => exact .one []
  | cons l ls ih =>
      cases cut : l.token.isPunct ',' && depth == 0 with
      | true =>
          have comma : l.token.isPunct ',' = true := (Bool.and_eq_true_iff.mp cut).1
          rw [splitCommas, cut, if_pos rfl]
          exact .cons [] (Token.isPunct_iff.mp comma) (ih depth)
      | false =>
          rw [splitCommas_cons cut]
          exact (ih (depthAfter depth l)).joinFirst [l]

theorem solid_joinFirst {front : List Lexeme} (h : Solid front) {parts : List (List Lexeme)}
    (solid : ∀ part ∈ parts, Solid part) : ∀ part ∈ joinFirst front parts, Solid part := by
  cases parts with
  | nil => exact List.forall_mem_singleton.mpr h
  | cons part parts =>
      rw [List.forall_mem_cons] at solid
      exact List.forall_mem_cons.mpr ⟨h.append solid.1, solid.2⟩

theorem solid_splitCommas {ls : List Lexeme} (h : Balanced ls) :
    ∀ part ∈ splitCommas 0 ls, Solid part := by
  induction h with
  | nil => exact List.forall_mem_singleton.mpr .nil
  | @flat l ls flat _ ih =>
      cases cut : l.token.isPunct ',' with
      | true =>
          rw [splitCommas, cut]
          exact List.forall_mem_cons.mpr ⟨.nil, ih⟩
      | false =>
          rw [splitCommas_cons (by rw [cut, Bool.false_and]), depthAfter_flat flat]
          exact solid_joinFirst (.flat flat cut .nil) ih
  | @group opening closing inside ls opens inner closes _ _ ih =>
      have front : Solid (opening :: (inside ++ [closing])) := .group opens inner closes .nil
      have split := front.splitCommas_append ls
      rw [List.cons_append, List.append_assoc, List.singleton_append] at split
      rw [split]
      exact solid_joinFirst front ih

/-- A list is divided at its commas outside of parentheses. Each part opens as many parentheses
    as it closes, so the commas between the parts are outside; there are no others inside the
    parts. -/
structure Divided (parts : List (List Lexeme)) (ls : List Lexeme) : Prop where
  separated : Separated parts ls
  level : ∀ part ∈ parts, balance part = 0
  uncut : ∀ part ∈ parts, ∀ place, ¬ CutAt part place

theorem divided_splitCommas {ls : List Lexeme} (h : Balanced ls) :
    Divided (splitCommas 0 ls) ls where
  separated := separated_splitCommas 0 ls
  level part member := balance_of_balanced (solid_splitCommas h part member).balanced
  uncut part member := uncutFrom_zero_iff.mp (solid_iff.mp (solid_splitCommas h part member)).2

theorem staysAbove_of_separated {parts : List (List Lexeme)} {ls : List Lexeme}
    (h : Separated parts ls) (level : ∀ part ∈ parts, balance part = 0)
    (above : StaysAbove 0 ls) : ∀ part ∈ parts, StaysAbove 0 part := by
  induction h with
  | one part => exact List.forall_mem_singleton.mpr above
  | cons part mark _ ih =>
      rw [List.forall_mem_cons] at level
      have behind := above.of_append
      rw [level.1, sub_zero, StaysAbove.cons_flat ⟨by rw [mark]; rfl, by rw [mark]; rfl⟩] at behind
      exact List.forall_mem_cons.mpr
        ⟨above.front (List.prefix_append _ _), ih level.2 behind.2⟩

theorem Divided.solid {parts : List (List Lexeme)} {ls : List Lexeme} (h : Divided parts ls)
    (balanced : Balanced ls) : ∀ part ∈ parts, Solid part := by
  have above := staysAbove_of_separated h.separated h.level (balanced_iff_balance.mp balanced).2
  intro part member
  have closed := balanced_iff_balance.mpr ⟨h.level part member, above part member⟩
  exact solid_iff.mpr ⟨closed, uncutFrom_zero_iff.mpr (h.uncut part member)⟩

/-- A group is read exactly if some closing parenthesis brings the balance back to zero. The
    first one that does ends the group: what stands before it is balanced, and reading goes on
    behind it. Until then the counter of the reader is what the balance tells, and stays above
    zero. A balanced list has one division at its commas outside of parentheses, and its parts
    are those of the division that are not empty; they are balanced, and no comma in them is
    outside of parentheses. The counter along the list is the balance, too. -/
theorem parentheses_respected :
    (∀ c : Cursor, c.atPunct '(' = true →
      ((∃ read, c.group = .ok read) ↔ ∃ place, ClosesAt c.rest place) ∧
      (∀ place, ClosesAt c.rest place → (∀ earlier < place, ¬ ClosesAt c.rest earlier) →
        0 < place ∧ place < c.rest.length ∧
        c.group = .ok (c.rest.extract 1 place, { c with rest := c.rest.drop (place + 1) }) ∧
        Balanced (c.rest.extract 1 place)) ∧
      (∀ count, 0 < count → (∀ place < count, ¬ ClosesAt c.rest place) →
        ∃ others : Nat, balance (c.rest.take count) = others + 1 ∧
          Cursor.splitClose 0 c.rest.tail =
            (Cursor.splitClose others (c.rest.drop count)).map fun split =>
              (c.rest.extract 1 count ++ split.1, split.2))) ∧
    (∀ ls, Balanced ls → ∃ parts, Divided parts ls ∧
      (∀ others, Divided others ls → others = parts) ∧
      commaParts ls = parts.filter (!·.isEmpty) ∧
      (∀ part ∈ commaParts ls, part ≠ [] ∧ Balanced part ∧ ∀ place, ¬ CutAt part place) ∧
      ∀ front, front <+: ls → (front.foldl depthAfter 0 : Nat) = balance front) := by
  constructor
  · intro c opened
    refine ⟨⟨?_, ?_⟩, fun place => Cursor.group_of_closesAt opened,
      fun count => Cursor.exists_counter opened⟩
    · rintro ⟨read, found⟩
      by_contra unclosed
      rw [Cursor.group_of_open opened (not_exists.mp unclosed)] at found
      contradiction
    · rintro ⟨place, closes⟩
      have some : ∃ place, ClosesAt c.rest place := ⟨place, closes⟩
      obtain ⟨-, -, read, -⟩ := Cursor.group_of_closesAt opened (Nat.find_spec some)
        fun earlier => Nat.find_min some
      exact ⟨_, read⟩
  · intro ls balanced
    have divided := divided_splitCommas balanced
    refine ⟨splitCommas 0 ls, divided, ?_, rfl, ?_, ?_⟩
    · intro others other
      exact (splitCommas_separated other.separated (other.solid balanced)).symm
    · intro part member
      obtain ⟨listed, visible⟩ := List.mem_filter.mp member
      refine ⟨?_, (solid_splitCommas balanced part listed).balanced, divided.uncut part listed⟩
      simpa using visible
    · intro front begins
      have above := (balanced_iff_balance.mp balanced).2.front begins
      have counter : (front.foldl depthAfter 0 : Nat) = (0 : Nat) + balance front :=
        Cursor.foldl_depthAfter_eq_balance above
      rw [counter]
      exact zero_add _

/-- In `(a, (b, )), (c)` the balance is zero behind both groups; the first group is read, and the
    comma inside its inner group divides nothing. -/
theorem parentheses_respected_nested :
    ∃ ls, tokenize "(a, (b, )), (c)" = .ok ls ∧ ClosesAt ls 7 ∧ ClosesAt ls 11 ∧
      (Cursor.ofSlice ls).group = .ok (ls.extract 1 7, ⟨ls.drop 8, 15⟩) ∧
      Balanced (ls.extract 1 7) ∧
      commaParts (ls.extract 1 7) = [ls.extract 1 2, ls.extract 3 7] ∧
      ∀ part ∈ commaParts (ls.extract 1 7), ∀ place, ¬ CutAt part place := by
  obtain ⟨ls, found, facts⟩ : ∃ ls ∈ (tokenize "(a, (b, )), (c)").toOption,
      (Cursor.ofSlice ls).stop = 15 ∧ (Cursor.ofSlice ls).atPunct '(' = true ∧
      (∀ earlier < 7, ¬ ClosesAt ls earlier) ∧ ClosesAt ls 7 ∧ ClosesAt ls 11 ∧
      commaParts (ls.extract 1 7) = [ls.extract 1 2, ls.extract 3 7] := by
    decide +kernel
  have read : tokenize "(a, (b, )), (c)" = .ok ls := by
    generalize tokenize "(a, (b, )), (c)" = result at found
    cases result with
    | error => contradiction
    | ok => exact congrArg Except.ok (Option.mem_some_iff.mp found)
  obtain ⟨stop, opened, first, closes, later, parts⟩ := facts
  obtain ⟨groups, lists⟩ := parentheses_respected
  obtain ⟨-, ends, -⟩ := groups (Cursor.ofSlice ls) opened
  obtain ⟨-, -, group, balanced⟩ := ends 7 closes first
  obtain ⟨_, -, -, -, whole, -⟩ := lists _ balanced
  have rest : (Cursor.ofSlice ls).rest = ls := rfl
  rw [rest, stop] at group
  exact ⟨ls, read, closes, later, group, balanced, parts,
    fun part member => (whole part member).2.2⟩

end Lexeme

end TableShift
