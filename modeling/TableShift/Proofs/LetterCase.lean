import Mathlib.Data.List.Basic
import TableShift.Proofs.LexicalErrors
import TableShift.Proofs.Spelling

/-! # Texts that differ in letter case

Two texts are the same up to letter case if their upper-case forms are equal. No scanner
looks at the case of a letter to see how far a token or a piece of a gap goes, so both texts
are cut at the same places, and the tokens at their heads are alike: only what quoted text
means, and how a bare name is spelled, depends on the case.
-/

namespace TableShift

/-- The characters with ASCII letters in upper case. -/
def upperChars (cs : List Char) : List Char :=
  cs.map Char.toUpper

/-- The small ASCII letters. -/
def smallLetters : List Char :=
  "abcdefghijklmnopqrstuvwxyz".toList

theorem mem_smallLetters_or_toUpper_eq (c : Char) : c ∈ smallLetters ∨ c.toUpper = c := by
  by_cases lower : 'a'.val ≤ c.val ∧ c.val ≤ 'z'.val
  · left
    have listed : smallLetters = (List.range 26).map fun n => Char.ofNat (97 + n) := by decide
    have least : 97 ≤ c.toNat := UInt32.le_iff_toNat_le.mp lower.1
    have most : c.toNat ≤ 122 := UInt32.le_iff_toNat_le.mp lower.2
    rw [listed, List.mem_map]
    refine ⟨c.toNat - 97, List.mem_range.mpr (by omega), ?_⟩
    rw [Nat.add_sub_cancel' least, Char.ofNat_toNat]
  · exact .inr (dif_neg lower)

/-- What the small letters and their capitals have in common, all characters have in common
    with their upper-case forms. -/
theorem toUpper_invariant {α : Type} [DecidableEq α] (f : Char → α)
    (letters : smallLetters.all (fun c => f c.toUpper = f c) = true) (c : Char) :
    f c.toUpper = f c := by
  rcases mem_smallLetters_or_toUpper_eq c with small | same
  · exact of_decide_eq_true (List.all_eq_true.mp letters c small)
  · rw [same]

theorem toUpper_eq_iff {k : Char} (unlettered : k.isAlpha = false) (c : Char) :
    c.toUpper = k ↔ c = k := by
  have letters : smallLetters.all (fun c => c.isAlpha && c.toUpper.isAlpha) = true := by decide
  rcases mem_smallLetters_or_toUpper_eq c with small | same
  · obtain ⟨alpha, upper⟩ := Bool.and_eq_true_iff.mp (List.all_eq_true.mp letters c small)
    constructor <;> rintro rfl <;> simp_all
  · rw [same]

theorem eq_of_toUpper_eq {c d : Char} (unlettered : c.isAlpha = false)
    (same : c.toUpper = d.toUpper) : c = d := by
  rw [(toUpper_eq_iff unlettered c).mpr rfl] at same
  exact ((toUpper_eq_iff unlettered d).mp same.symm).symm

theorem eq_iff_of_toUpper_eq {c d k : Char} (unlettered : k.isAlpha = false)
    (same : c.toUpper = d.toUpper) : c = k ↔ d = k := by
  rw [← toUpper_eq_iff unlettered c, same, toUpper_eq_iff unlettered]

theorem isDigit_toUpper (c : Char) : c.toUpper.isDigit = c.isDigit :=
  toUpper_invariant Char.isDigit (by decide) c

theorem utf8Size_toUpper (c : Char) : c.toUpper.utf8Size = c.utf8Size :=
  toUpper_invariant Char.utf8Size (by decide) c

theorem Gap.isSpace_toUpper (c : Char) : isSpace c.toUpper = isSpace c :=
  toUpper_invariant isSpace (by decide) c

theorem Gap.inLine_toUpper (c : Char) : inLine c.toUpper = inLine c :=
  toUpper_invariant inLine (by decide) c

theorem Scan.isWordChar_toUpper (c : Char) : isWordChar c.toUpper = isWordChar c :=
  toUpper_invariant isWordChar (by decide +kernel) c

theorem Scan.radixOf?_toUpper (c : Char) : radixOf? c.toUpper = radixOf? c :=
  toUpper_invariant radixOf? (by decide) c

theorem byteLength_upperChars (cs : List Char) : byteLength (upperChars cs) = byteLength cs := by
  induction cs with
  | nil => rfl
  | cons c cs ih =>
      have width := utf8Size_toUpper c
      simp only [upperChars, List.map_cons, byteLength] at ih ⊢
      rw [width, ih]

/-! ## Texts -/

/-- The texts differ in letter case at most. -/
def SameLetters (xs ys : List Char) : Prop :=
  upperChars xs = upperChars ys

namespace SameLetters

variable {xs ys : List Char}

theorem symm (h : SameLetters xs ys) : SameLetters ys xs :=
  Eq.symm h

theorem nil_left (h : SameLetters [] ys) : ys = [] :=
  List.map_eq_nil_iff.mp h.symm

theorem exists_cons {x : Char} (h : SameLetters (x :: xs) ys) :
    ∃ y ys', ys = y :: ys' ∧ x.toUpper = y.toUpper ∧ SameLetters xs ys' := by
  cases ys with
  | nil => contradiction
  | cons y ys' =>
      obtain ⟨first, others⟩ := List.cons.inj h
      exact ⟨y, ys', rfl, first, others⟩

theorem cons {x y : Char} (first : x.toUpper = y.toUpper) (h : SameLetters xs ys) :
    SameLetters (x :: xs) (y :: ys) :=
  congrArg₂ List.cons first h

theorem append {xs' ys' : List Char} (h : SameLetters xs ys) (h' : SameLetters xs' ys') :
    SameLetters (xs ++ xs') (ys ++ ys') := by
  unfold SameLetters upperChars at *
  rw [List.map_append, List.map_append, h, h']

theorem length_eq (h : SameLetters xs ys) : xs.length = ys.length := by
  simpa [upperChars] using congrArg List.length h

theorem byteLength_eq (h : SameLetters xs ys) : byteLength xs = byteLength ys := by
  rw [← byteLength_upperChars xs, h, byteLength_upperChars]

theorem tail (h : SameLetters xs ys) : SameLetters xs.tail ys.tail := by
  simpa [SameLetters, upperChars] using congrArg List.tail h

theorem upperAscii_eq (h : SameLetters xs ys) :
    upperAscii (.ofList xs) = upperAscii (.ofList ys) := by
  rw [upperAscii, upperAscii, String.toList_ofList, String.toList_ofList]
  exact congrArg String.ofList h

theorem isEmpty_eq (h : SameLetters xs ys) : xs.isEmpty = ys.isEmpty := by
  simpa [upperChars] using congrArg List.isEmpty h

theorem eq_of_unlettered (unlettered : ∀ c ∈ xs, c.isAlpha = false) (h : SameLetters xs ys) :
    xs = ys := by
  induction xs generalizing ys with
  | nil => exact h.nil_left.symm
  | cons x xs ih =>
      rw [List.forall_mem_cons] at unlettered
      obtain ⟨y, ys, rfl, first, others⟩ := h.exists_cons
      rw [eq_of_toUpper_eq unlettered.1 first, ih unlettered.2 others]

section Runs

variable {p : Char → Bool}

theorem takeWhile (blind : ∀ c : Char, p c.toUpper = p c) (h : SameLetters xs ys) :
    SameLetters (xs.takeWhile p) (ys.takeWhile p) := by
  have run (cs : List Char) : upperChars (cs.takeWhile p) = (upperChars cs).takeWhile p := by
    simp [upperChars, List.takeWhile_map, Function.comp_def, blind]
  unfold SameLetters at *
  rw [run, run, h]

theorem dropWhile (blind : ∀ c : Char, p c.toUpper = p c) (h : SameLetters xs ys) :
    SameLetters (xs.dropWhile p) (ys.dropWhile p) := by
  have run (cs : List Char) : upperChars (cs.dropWhile p) = (upperChars cs).dropWhile p := by
    simp [upperChars, List.dropWhile_map, Function.comp_def, blind]
  unfold SameLetters at *
  rw [run, run, h]

theorem all_eq (blind : ∀ c : Char, p c.toUpper = p c) (h : SameLetters xs ys) :
    xs.all p = ys.all p := by
  have every (cs : List Char) : (upperChars cs).all p = cs.all p := by
    simp [upperChars, List.all_map, Function.comp_def, blind]
  rw [← every xs, h, every]

theorem any_head? (blind : ∀ c : Char, p c.toUpper = p c) (h : SameLetters xs ys) :
    xs.head?.any p = ys.head?.any p := by
  have first (cs : List Char) : (upperChars cs).head?.any p = cs.head?.any p := by
    cases cs <;> simp [upperChars, blind]
  rw [← first xs, h, first]

end Runs

theorem head?_eq_some_iff {k : Char} (unlettered : k.isAlpha = false) (h : SameLetters xs ys) :
    xs.head? = some k ↔ ys.head? = some k := by
  have first (cs : List Char) : (upperChars cs).head? = some k ↔ cs.head? = some k := by
    cases cs <;> simp [upperChars, toUpper_eq_iff unlettered]
  rw [← first xs, h, first]

end SameLetters

theorem rel_map {α β : Type} {R : α → α → Prop} {S : β → β → Prop} {f g : α → β}
    {x y : Option α} (h : Option.Rel R x y) (step : ∀ a b, R a b → S (f a) (g b)) :
    Option.Rel S (x.map f) (y.map g) := by
  cases h with
  | some related => exact .some (step _ _ related)
  | none => exact .none

theorem eq_none_iff_of_rel {α : Type} {R : α → α → Prop} {x y : Option α} (h : Option.Rel R x y) :
    x = none ↔ y = none := by
  cases h <;> simp

theorem rel_or {α : Type} {R : α → α → Prop} {x y x' y' : Option α} (h : Option.Rel R x y)
    (h' : Option.Rel R x' y') : Option.Rel R (x.or x') (y.or y') := by
  cases h with
  | some related => exact .some related
  | none => exact h'

/-! ## Gaps -/

namespace Gap

/-- Two splits of texts at the same place. -/
structure SameSplit (x y : List Char × List Char) : Prop where
  taken : SameLetters x.1 y.1
  rest : SameLetters x.2 y.2

theorem SameSplit.cons {x y : List Char × List Char} {c d : Char} (first : c.toUpper = d.toUpper)
    (h : SameSplit x y) : SameSplit (x.map (c :: ·) id) (y.map (d :: ·) id) :=
  ⟨h.taken.cons first, h.rest⟩

theorem throughClose?_cons (c : Char) (cs : List Char) :
    throughClose? (c :: cs) =
      if c = '*' ∧ cs.head? = some '/' then some (['*', '/'], cs.tail)
      else (throughClose? cs).map (Prod.map (c :: ·) id) := by
  rw [throughClose?]
  split
  · rfl
  · cases throughClose? cs <;> rfl

theorem endsLine_cons (c : Char) (cs : List Char) :
    endsLine (c :: cs) = if c = '\r' then cs.head? == some '\n' else true := by
  unfold endsLine
  split <;> simp_all

theorem piece?_cons (c : Char) (cs : List Char) :
    piece? (c :: cs) =
      if c = '-' ∧ cs.head? = some '-' then
        (restOfLine? cs.tail).map (Prod.map ('-' :: '-' :: ·) id)
      else if c = '#' then (restOfLine? cs).map (Prod.map ('#' :: ·) id)
      else if c = '/' ∧ cs.head? = some '*' then
        (throughClose? cs.tail).map (Prod.map ('/' :: '*' :: ·) id)
      else if isSpace c then some (c :: cs.takeWhile isSpace, cs.dropWhile isSpace)
      else none := by
  by_cases dash : c = '-' ∧ cs.head? = some '-'
  · obtain ⟨rfl, next⟩ := dash
    obtain ⟨more, rfl⟩ := List.head?_eq_some_iff.mp next
    rw [if_pos ⟨rfl, next⟩, piece?, List.tail_cons]
    cases restOfLine? more <;> rfl
  rw [if_neg dash]
  by_cases hash : c = '#'
  · subst hash
    rw [if_pos rfl, piece?]
    cases restOfLine? cs <;> rfl
  rw [if_neg hash]
  by_cases star : c = '/' ∧ cs.head? = some '*'
  · obtain ⟨rfl, next⟩ := star
    obtain ⟨more, rfl⟩ := List.head?_eq_some_iff.mp next
    rw [if_pos ⟨rfl, next⟩, piece?, List.tail_cons]
    cases throughClose? more <;> rfl
  rw [if_neg star, piece?_blanks dash hash star]

variable {xs ys : List Char}

theorem endsLine_eq (h : SameLetters xs ys) : endsLine xs = endsLine ys := by
  cases xs with
  | nil => rw [h.nil_left]
  | cons x xs =>
      obtain ⟨y, ys, rfl, first, others⟩ := h.exists_cons
      have returned : x = '\r' ↔ y = '\r' := eq_iff_of_toUpper_eq rfl first
      have fed : xs.head? = some '\n' ↔ ys.head? = some '\n' := others.head?_eq_some_iff rfl
      have next : (xs.head? == some '\n') = (ys.head? == some '\n') := by
        rw [Bool.eq_iff_iff, beq_iff_eq, beq_iff_eq, fed]
      simp only [endsLine_cons, returned, next]

theorem restOfLine?_same (h : SameLetters xs ys) :
    Option.Rel SameSplit (restOfLine? xs) (restOfLine? ys) := by
  have rest := h.dropWhile inLine_toUpper
  unfold restOfLine?
  rw [endsLine_eq rest]
  split
  · exact .some ⟨h.takeWhile inLine_toUpper, rest⟩
  · exact .none

theorem throughClose?_same (h : SameLetters xs ys) :
    Option.Rel SameSplit (throughClose? xs) (throughClose? ys) := by
  induction xs generalizing ys with
  | nil =>
      rw [h.nil_left]
      exact .none
  | cons x xs ih =>
      obtain ⟨y, ys, rfl, first, others⟩ := h.exists_cons
      have star : x = '*' ↔ y = '*' := eq_iff_of_toUpper_eq rfl first
      have slash : xs.head? = some '/' ↔ ys.head? = some '/' := others.head?_eq_some_iff rfl
      simp only [throughClose?_cons, star, slash]
      split
      · exact .some ⟨rfl, others.tail⟩
      · exact rel_map (ih others) fun _ _ inner => inner.cons first

/-- The pieces at the heads of two texts are as long as each other. -/
theorem piece?_same (h : SameLetters xs ys) : Option.Rel SameSplit (piece? xs) (piece? ys) := by
  cases xs with
  | nil =>
      rw [h.nil_left]
      exact .none
  | cons x xs =>
      obtain ⟨y, ys, rfl, first, others⟩ := h.exists_cons
      have dash : x = '-' ↔ y = '-' := eq_iff_of_toUpper_eq rfl first
      have hash : x = '#' ↔ y = '#' := eq_iff_of_toUpper_eq rfl first
      have slash : x = '/' ↔ y = '/' := eq_iff_of_toUpper_eq rfl first
      have dashed : xs.head? = some '-' ↔ ys.head? = some '-' := others.head?_eq_some_iff rfl
      have starred : xs.head? = some '*' ↔ ys.head? = some '*' := others.head?_eq_some_iff rfl
      have blank : isSpace x = isSpace y := by
        rw [← isSpace_toUpper x, first, isSpace_toUpper]
      simp only [piece?_cons, dash, hash, slash, dashed, starred, blank]
      split
      · exact rel_map (restOfLine?_same others.tail) fun _ _ line => (line.cons rfl).cons rfl
      split
      · exact rel_map (restOfLine?_same others) fun _ _ line => line.cons rfl
      split
      · exact rel_map (throughClose?_same others.tail) fun _ _ body => (body.cons rfl).cons rfl
      split
      · exact .some ⟨(others.takeWhile isSpace_toUpper).cons first,
          others.dropWhile isSpace_toUpper⟩
      · exact .none

end Gap

theorem Lexeme.startsComment_eq {xs ys : List Char} (h : SameLetters xs ys) :
    startsComment xs = startsComment ys := by
  have opens (cs : List Char) :
      startsComment cs = true ↔ cs.head? = some '/' ∧ cs.tail.head? = some '*' := by
    match cs with
    | [] | [_] => simp [startsComment]
    | c :: d :: cs => simp [startsComment]
  rw [Bool.eq_iff_iff, opens, opens, h.head?_eq_some_iff rfl, h.tail.head?_eq_some_iff rfl]

/-! ## Tokens -/

/-- Two outcomes of the same kind, and what was found in both is related. -/
inductive Attempt.Rel {α : Type} (R : α → α → Prop) : Attempt α → Attempt α → Prop where
  | found {x y : α} (related : R x y) : Rel R (.found x) (.found y)
  | absent : Rel R .absent .absent
  | broken : Rel R .broken .broken

theorem Attempt.Rel.map {α β : Type} {R : α → α → Prop} {S : β → β → Prop} {f g : α → β}
    {x y : Attempt α} (h : Rel R x y)
    (step : ∀ a b, x = .found a → y = .found b → R a b → S (f a) (g b)) :
    Rel S (x.map f) (y.map g) := by
  cases h with
  | found related => exact .found (step _ _ rfl rfl related)
  | absent => exact .absent
  | broken => exact .broken

namespace Scan

/-- The quotes around text and names. -/
def isQuote (c : Char) : Bool :=
  c == '\'' || c == '"' || c == backQuote

/-- The part of a token that is quoted: it begins with the first quote. -/
def quotedPart (taken : List Char) : List Char :=
  taken.dropWhile (!isQuote ·)

theorem isQuote_toUpper (c : Char) : isQuote c.toUpper = isQuote c :=
  toUpper_invariant isQuote (by decide) c

theorem quotedPart_of_isQuote {c : Char} (quote : isQuote c = true) (cs : List Char) :
    quotedPart (c :: cs) = c :: cs := by
  simp [quotedPart, quote]

/-- The token is a name without quotes. -/
structure BareName (s : Scan) : Prop where
  token : s.token = .identifier (.ofList s.taken)
  letters : ∀ c ∈ s.taken, isWordChar c = true

/-- Two scans that differ in letter case at most. If what is quoted is the same, the tokens
    are, or both are bare names. -/
structure Alike (s t : Scan) : Prop where
  taken : SameLetters s.taken t.taken
  rest : SameLetters s.rest t.rest
  token : quotedPart s.taken = quotedPart t.taken → s.token = t.token ∨ s.BareName ∧ t.BareName

variable {xs ys : List Char}

theorem backQuoted?_alike (h : SameLetters xs ys) :
    Option.Rel Alike (backQuoted? xs) (backQuoted? ys) := by
  cases xs with
  | nil =>
      rw [h.nil_left]
      exact .none
  | cons x xs =>
      obtain ⟨y, ys, rfl, first, others⟩ := h.exists_cons
      have blind (c : Char) : (c.toUpper != backQuote) = (c != backQuote) :=
        toUpper_invariant (· != backQuote) (by decide) c
      have name := others.takeWhile (p := (· != backQuote)) blind
      have behind := others.dropWhile (p := (· != backQuote)) blind
      by_cases opened : x = backQuote
      · subst opened
        have same : backQuote = y := eq_of_toUpper_eq rfl first
        subst same
        simp only [backQuoted?]
        cases closing : xs.dropWhile (· != backQuote) with
        | nil =>
            rw [closing] at behind
            rw [behind.nil_left]
            exact .none
        | cons close rest =>
            rw [closing] at behind
            obtain ⟨close', rest', closing', closed, left⟩ := behind.exists_cons
            rw [closing']
            refine .some ⟨(name.cons first).append (.cons closed rfl), left, fun quoted => .inl ?_⟩
            rw [List.cons_append, quotedPart_of_isQuote rfl, List.cons_append,
              quotedPart_of_isQuote rfl] at quoted
            obtain ⟨inside, -⟩ := List.append_inj (List.cons.inj quoted).2 name.length_eq
            rw [inside]
      · have other : y ≠ backQuote := by
          rwa [Ne, ← eq_iff_of_toUpper_eq rfl first]
        rw [backQuoted?, backQuoted?, if_neg opened, if_neg other]
        exact .none

/-- Two quoted texts that differ in letter case at most. -/
structure Quoted.Alike (p q : Quoted) : Prop where
  taken : SameLetters p.taken q.taken
  rest : SameLetters p.rest q.rest
  text : p.taken = q.taken → p.text = q.text

theorem Quoted.Alike.cons {p q : Quoted} (h : Quoted.Alike p q) {front front' : List Char}
    {c d : Char} (same : SameLetters front front') (meaning : front = front' → c = d) :
    Quoted.Alike (p.cons front c) (q.cons front' d) where
  taken := same.append h.taken
  rest := h.rest
  text := by
    intro whole
    obtain ⟨here, later⟩ := List.append_inj whole same.length_eq
    exact congrArg₂ List.cons (meaning here) (h.text later)

theorem quotedBody?_alike {quote : Char} (unlettered : quote.isAlpha = false)
    (h : SameLetters xs ys) :
    Option.Rel Quoted.Alike (quotedBody? quote xs) (quotedBody? quote ys) := by
  -- Neither a quote nor a backslash is a letter, so the other text is in the same case.
  fun_induction quotedBody? quote xs generalizing ys with
  | case1 =>
      rw [h.nil_left]
      exact .none
  | case2 =>
      obtain ⟨y, ys, rfl, first, others⟩ := h.exists_cons
      cases eq_of_toUpper_eq rfl first
      rw [others.nil_left]
      exact .none
  | case3 unslashed =>
      obtain ⟨y, ys, rfl, first, others⟩ := h.exists_cons
      cases eq_of_toUpper_eq unlettered first
      rw [others.nil_left, quotedBody?, if_neg unslashed, if_pos rfl]
      exact .some ⟨rfl, rfl, fun _ => rfl⟩
  | case4 c unslashed unquoted =>
      obtain ⟨y, ys, rfl, first, others⟩ := h.exists_cons
      rw [eq_iff_of_toUpper_eq rfl first] at unslashed
      rw [eq_iff_of_toUpper_eq unlettered first] at unquoted
      rw [others.nil_left, quotedBody?, if_neg unslashed, if_neg unquoted]
      exact .none
  | case5 d cs ih =>
      obtain ⟨y, ys, rfl, first, others⟩ := h.exists_cons
      obtain ⟨z, zs, rfl, second, later⟩ := others.exists_cons
      cases eq_of_toUpper_eq rfl first
      rw [quotedBody?, if_pos rfl]
      refine rel_map (ih later) fun _ _ inner => inner.cons (.cons rfl (.cons second rfl)) ?_
      intro escaped
      rw [(List.cons.inj (List.cons.inj escaped).2).1]
  | case6 cs unslashed ih =>
      obtain ⟨y, ys, rfl, first, others⟩ := h.exists_cons
      obtain ⟨z, zs, rfl, second, later⟩ := others.exists_cons
      cases eq_of_toUpper_eq unlettered first
      cases eq_of_toUpper_eq unlettered second
      rw [quotedBody?, if_neg unslashed, if_pos rfl, if_pos rfl]
      exact rel_map (ih later) fun _ _ inner => inner.cons rfl fun _ => rfl
  | case7 d cs undoubled unslashed =>
      obtain ⟨y, ys, rfl, first, others⟩ := h.exists_cons
      obtain ⟨z, zs, rfl, second, later⟩ := others.exists_cons
      cases eq_of_toUpper_eq unlettered first
      rw [eq_iff_of_toUpper_eq unlettered second] at undoubled
      rw [quotedBody?, if_neg unslashed, if_pos rfl, if_neg undoubled]
      exact .some ⟨rfl, others, fun _ => rfl⟩
  | case8 c d cs unslashed unquoted ih =>
      obtain ⟨y, ys, rfl, first, others⟩ := h.exists_cons
      obtain ⟨z, zs, rfl, -, -⟩ := others.exists_cons
      rw [eq_iff_of_toUpper_eq rfl first] at unslashed
      rw [eq_iff_of_toUpper_eq unlettered first] at unquoted
      rw [quotedBody?, if_neg unslashed, if_neg unquoted]
      refine rel_map (ih others) fun _ _ inner => inner.cons (.cons first rfl) ?_
      intro plain
      exact (List.cons.inj plain).1

theorem isQuote_of_quotes {slice text : List Char} (h : Quotes slice text) :
    ∃ quote cs, slice = quote :: cs ∧ isQuote quote = true := by
  cases h with
  | @intro quote body text kind decodes =>
      refine ⟨quote, _, rfl, ?_⟩
      rcases kind with rfl | rfl <;> rfl

theorem quotedPart_of_quoted {q : Quoted} (h : quoted xs = .found q) :
    quotedPart q.taken = q.taken := by
  obtain ⟨quote, cs, taken, isQuote⟩ := isQuote_of_quotes (quotes_of_quoted h)
  rw [taken, quotedPart_of_isQuote isQuote]

theorem quoted_alike (h : SameLetters xs ys) :
    Attempt.Rel Quoted.Alike (quoted xs) (quoted ys) := by
  cases xs with
  | nil =>
      rw [h.nil_left]
      exact .absent
  | cons x xs =>
      obtain ⟨y, ys, rfl, first, others⟩ := h.exists_cons
      have single : x = '\'' ↔ y = '\'' := eq_iff_of_toUpper_eq rfl first
      have double : x = '"' ↔ y = '"' := eq_iff_of_toUpper_eq rfl first
      simp only [quoted, single, double]
      split
      next kind =>
        have unlettered : y.isAlpha = false := by rcases kind with rfl | rfl <;> rfl
        obtain rfl : y = x := eq_of_toUpper_eq unlettered first.symm
        have body := quotedBody?_alike unlettered others
        generalize quotedBody? y xs = p, quotedBody? y ys = q at body
        cases body with
        | none => exact .broken
        | some inner =>
            exact .found ⟨inner.taken.cons rfl, inner.rest, fun whole =>
              inner.text (List.cons.inj whole).2⟩
      next => exact .absent

theorem stringLiteral_eq_map (cs : List Char) :
    stringLiteral cs = (quoted cs).map fun q =>
      ⟨.literal (.string (.ofList q.text)), .ofList q.text, q.taken, q.rest⟩ := by
  unfold stringLiteral
  cases quoted cs <;> rfl

theorem stringLiteral_alike (h : SameLetters xs ys) :
    Attempt.Rel Alike (stringLiteral xs) (stringLiteral ys) := by
  rw [stringLiteral_eq_map, stringLiteral_eq_map]
  refine (quoted_alike h).map fun p q found found' alike => ⟨alike.taken, alike.rest, ?_⟩
  intro inside
  rw [quotedPart_of_quoted found, quotedPart_of_quoted found'] at inside
  rw [alike.text inside]
  exact .inl rfl

theorem radixLiteral_eq_map {c : Char} {radix : Nat} (announced : radixOf? c = some radix)
    (cs : List Char) :
    radixLiteral (c :: cs) = (quoted cs).map fun q =>
      ⟨.literal (radixValue radix q.text), .ofList (c :: q.taken), c :: q.taken, q.rest⟩ := by
  simp only [radixLiteral, announced]
  cases quoted cs <;> rfl

theorem isQuote_of_radix {c : Char} {radix : Nat} (announced : radixOf? c = some radix) :
    isQuote c = false := by
  have listed : c ∈ radixLetters := isSome_radixOf?_iff.mp (by rw [announced]; rfl)
  have unquoted : radixLetters.all (!isQuote ·) = true := by decide
  simpa using List.all_eq_true.mp unquoted c listed

theorem quotedPart_of_radix {c : Char} {radix : Nat} (announced : radixOf? c = some radix)
    (cs : List Char) : quotedPart (c :: cs) = quotedPart cs := by
  simp [quotedPart, isQuote_of_radix announced]

theorem radixLiteral_alike (h : SameLetters xs ys) :
    Attempt.Rel Alike (radixLiteral xs) (radixLiteral ys) := by
  cases xs with
  | nil =>
      rw [h.nil_left]
      exact .absent
  | cons x xs =>
      obtain ⟨y, ys, rfl, first, others⟩ := h.exists_cons
      have same : radixOf? x = radixOf? y := by
        rw [← radixOf?_toUpper x, first, radixOf?_toUpper]
      cases announced : radixOf? x with
      | none =>
          have announced' := same.symm.trans announced
          simp only [radixLiteral, announced, announced']
          exact .absent
      | some radix =>
          have announced' := same.symm.trans announced
          rw [radixLiteral_eq_map announced, radixLiteral_eq_map announced']
          refine (quoted_alike others).map fun p q found found' alike =>
            ⟨alike.taken.cons first, alike.rest, ?_⟩
          intro inside
          rw [quotedPart_of_radix announced, quotedPart_of_radix announced',
            quotedPart_of_quoted found, quotedPart_of_quoted found'] at inside
          rw [alike.text inside]
          exact .inl rfl

theorem sign_cons (c : Char) (cs : List Char) :
    sign (c :: cs) = if c = '-' then (['-'], cs) else ([], c :: cs) := by
  unfold sign
  split <;> simp_all

theorem fraction_cons (c : Char) (cs : List Char) :
    fraction (c :: cs) =
      if c = '.' then ('.' :: cs.takeWhile Char.isDigit, cs.dropWhile Char.isDigit)
      else ([], c :: cs) := by
  unfold fraction
  split <;> simp_all

theorem sign_same (h : SameLetters xs ys) :
    (sign xs).1 = (sign ys).1 ∧ SameLetters (sign xs).2 (sign ys).2 := by
  cases xs with
  | nil =>
      rw [h.nil_left]
      exact ⟨rfl, rfl⟩
  | cons x xs =>
      obtain ⟨y, ys, rfl, first, others⟩ := h.exists_cons
      have minus : x = '-' ↔ y = '-' := eq_iff_of_toUpper_eq rfl first
      simp only [sign_cons, minus]
      split
      · exact ⟨rfl, others⟩
      · exact ⟨rfl, h⟩

theorem digits_same (h : SameLetters xs ys) :
    xs.takeWhile Char.isDigit = ys.takeWhile Char.isDigit := by
  apply (h.takeWhile isDigit_toUpper).eq_of_unlettered
  intro c member
  have digit := List.mem_takeWhile_imp member
  cases letter : c.isAlpha with
  | false => rfl
  | true =>
      have bounds := toNat_of_isAlpha letter
      have most : c.toNat ≤ 57 := (Char.isDigit_iff_toNat.mp digit).2
      omega

theorem fraction_same (h : SameLetters xs ys) :
    (fraction xs).1 = (fraction ys).1 ∧ SameLetters (fraction xs).2 (fraction ys).2 := by
  cases xs with
  | nil =>
      rw [h.nil_left]
      exact ⟨rfl, rfl⟩
  | cons x xs =>
      obtain ⟨y, ys, rfl, first, others⟩ := h.exists_cons
      have point : x = '.' ↔ y = '.' := eq_iff_of_toUpper_eq rfl first
      simp only [fraction_cons, point, digits_same others]
      split
      · exact ⟨rfl, others.dropWhile isDigit_toUpper⟩
      · exact ⟨rfl, h⟩

theorem number?_alike (h : SameLetters xs ys) : Option.Rel Alike (number? xs) (number? ys) := by
  obtain ⟨minus, unsigned⟩ := sign_same h
  obtain ⟨point, rest⟩ := fraction_same (unsigned.dropWhile isDigit_toUpper)
  have whole := digits_same unsigned
  have next := rest.any_head? isWordChar_toUpper
  simp only [number?, minus, whole, point, next]
  split
  · exact .none
  · exact .some ⟨rfl, rest, fun _ => .inl rfl⟩

theorem wordToken_cases {v w : String} (same : upperAscii v = upperAscii w) :
    wordToken v = wordToken w ∨ wordToken v = .identifier v ∧ wordToken w = .identifier w := by
  simp only [wordToken, same]
  split
  · exact .inl rfl
  split
  · exact .inl rfl
  · exact .inr ⟨rfl, rfl⟩

theorem word?_alike (h : SameLetters xs ys) : Option.Rel Alike (word? xs) (word? ys) := by
  have taken := h.takeWhile isWordChar_toUpper
  have letters (cs : List Char) : ∀ c ∈ cs.takeWhile isWordChar, isWordChar c = true :=
    fun c member => List.mem_takeWhile_imp member
  have token := wordToken_cases taken.upperAscii_eq
  simp only [word?, taken.isEmpty_eq]
  generalize wordToken (.ofList (xs.takeWhile isWordChar)) = v at token
  generalize wordToken (.ofList (ys.takeWhile isWordChar)) = w at token
  split
  · exact .none
  · refine .some ⟨taken, h.dropWhile isWordChar_toUpper, fun _ => ?_⟩
    rcases token with same | ⟨name, name'⟩
    · exact .inl same
    · exact .inr ⟨⟨name, letters xs⟩, ⟨name', letters ys⟩⟩

theorem mark?_alike (h : SameLetters xs ys) : Option.Rel Alike (mark? xs) (mark? ys) := by
  cases xs with
  | nil =>
      rw [h.nil_left]
      exact .none
  | cons x xs =>
      obtain ⟨y, ys, rfl, first, others⟩ := h.exists_cons
      have signs : marks.all (!·.isAlpha) = true := by decide
      have blind := toUpper_invariant marks.contains (by decide)
      have listed : marks.contains x = marks.contains y := by
        rw [← blind x, first, blind]
      rw [mark?, mark?, ← listed]
      split
      next mark =>
        rw [List.contains_iff_mem] at mark
        have unlettered : x.isAlpha = false := by
          simpa using List.all_eq_true.mp signs x mark
        obtain rfl : x = y := eq_of_toUpper_eq unlettered first
        exact .some ⟨rfl, others, fun _ => .inl rfl⟩
      next => exact .none

theorem token?_alike (h : SameLetters xs ys) : Option.Rel Alike (token? xs) (token? ys) := by
  have name := backQuoted?_alike h
  have text := stringLiteral_alike h
  have radix := radixLiteral_alike h
  have number := number?_alike h
  have word := word?_alike h
  have mark := mark?_alike h
  -- The first shape that stands at the head of one text stands at the head of the other.
  unfold token?
  generalize backQuoted? xs = x, backQuoted? ys = y at name
  generalize stringLiteral xs = x', stringLiteral ys = y' at text
  generalize radixLiteral xs = x'', radixLiteral ys = y'' at radix
  cases name with
  | some alike => exact .some alike
  | none =>
      cases text with
      | found alike => exact .some alike
      | broken => exact .none
      | absent =>
          cases radix with
          | found alike => exact .some alike
          | broken => exact .none
          | absent => exact rel_or number (rel_or word mark)

end Scan

end TableShift
