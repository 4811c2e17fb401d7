import Mathlib.Data.List.Forall2
import TableShift.Proofs.Isolation

/-! # Runs of compound keywords

Merging compound keywords divides lexemes into runs: a lexeme alone, or two or three keywords
that are the words of a compound. Nothing is lost, and no words of a compound are left next to
one another: a merged keyword is not a word of any compound, so a compound among the merged
lexemes would have been found when its first word was read.
-/

namespace TableShift.Lexeme

/-- A run of lexemes and the lexeme that stands for it: a lexeme that stands for itself, or the
    words of a compound keyword in one lexeme, from the start of the first to the end of the
    last. -/
inductive Merged : List Lexeme → Lexeme → Prop where
  | single (l : Lexeme) : Merged [l] l
  | compound {words : List String} {run : List Lexeme} {first last : Lexeme}
      (listed : words ∈ compoundKeywords) (spelled : run.map token = words.map .keyword)
      (length : run.length = 2 ∨ run.length = 3) (starts : run.head? = some first)
      (ends : run.getLast? = some last) :
      Merged run ⟨.keyword (joinWith " " words), joinWith " " (run.map raw), first.start, last.stop⟩

/-! ## Words at the head -/

theorem startWith_iff {words : List String} {ls : List Lexeme} :
    startWith words ls = true ↔ words.map .keyword <+: ls.map token := by
  induction words generalizing ls with
  | nil => simp [startWith]
  | cons word words ih =>
      cases ls with
      | nil => simp [startWith]
      | cons l ls =>
          rw [startWith, Bool.and_eq_true, Token.isKeyword_iff, ih, List.map_cons, List.map_cons,
            List.cons_prefix_cons]
          exact and_congr_left' eq_comm

theorem map_token_take {words : List String} {ls : List Lexeme}
    (h : compound? ls = some words) :
    (ls.take words.length).map token = words.map .keyword := by
  have starts := startWith_iff.mp (List.find?_some (p := (startWith · ls)) h)
  simpa using (List.prefix_iff_eq_take.mp starts).symm

theorem merged_take {words : List String} {ls : List Lexeme} (h : compound? ls = some words) :
    Merged (ls.take words.length) (ofCompound words (ls.take words.length)) := by
  have lengths : ∀ words ∈ compoundKeywords, words.length = 2 ∨ words.length = 3 := by decide
  have listed := List.mem_of_find?_eq_some h
  have spelled := map_token_take h
  have length := lengths words listed
  have same := congrArg List.length spelled
  simp only [List.length_map] at same
  rw [← same] at length
  generalize ls.take words.length = run at spelled length
  have nonempty : run ≠ [] := by
    apply List.ne_nil_of_length_pos
    omega
  have starts := List.head?_eq_some_head nonempty
  have ends := List.getLast?_eq_some_getLast nonempty
  have merged := Merged.compound listed spelled length starts ends
  simpa [ofCompound, starts, ends] using merged

/-! ## What is left to merge -/

/-- Lexemes among which no compound keyword is left to merge. -/
def Settled (ls : List Lexeme) : Prop :=
  ∀ rest, rest <:+ ls → compound? rest = none

theorem settled_cons {l : Lexeme} {ls : List Lexeme} :
    Settled (l :: ls) ↔ compound? (l :: ls) = none ∧ Settled ls := by
  simp [Settled, List.suffix_cons_iff]

theorem mergeCompounds_of_settled {ls : List Lexeme} (h : Settled ls) :
    mergeCompounds ls = ls := by
  induction ls with
  | nil => rw [mergeCompounds]
  | cons l ls ih =>
      rw [settled_cons] at h
      rw [mergeCompounds, h.1]
      exact congrArg (l :: ·) (ih h.2)

theorem ne_joinWith_of_mem {words compound : List String} (listed : words ∈ compoundKeywords)
    (other : compound ∈ compoundKeywords) : ∀ word ∈ words, word ≠ joinWith " " compound := by
  have apart : ∀ words ∈ compoundKeywords, ∀ compound ∈ compoundKeywords,
      ∀ word ∈ words, word ≠ joinWith " " compound := by
    decide +kernel
  exact apart words listed compound other

/-- Words other than a merged keyword are not found where it stands. -/
theorem startWith_ofCompound {word : String} {words compound : List String} {run ls : List Lexeme}
    (other : word ≠ joinWith " " compound) :
    startWith (word :: words) (ofCompound compound run :: ls) = false := by
  simp [startWith, ofCompound, Token.isKeyword, Ne.symm other]

theorem startWith_of_mergeCompounds {words : List String} {ls : List Lexeme}
    (simple : ∀ compound ∈ compoundKeywords, ∀ word ∈ words, word ≠ joinWith " " compound)
    (h : startWith words (mergeCompounds ls) = true) : startWith words ls = true := by
  induction words generalizing ls with
  | nil => rfl
  | cons word words ih =>
      cases ls with
      | nil =>
          rw [mergeCompounds] at h
          exact h
      | cons l ls =>
          rw [mergeCompounds] at h
          split at h
          next compound found =>
            have listed := List.mem_of_find?_eq_some found
            rw [startWith_ofCompound (simple compound listed word List.mem_cons_self)] at h
            contradiction
          next =>
            simp only [startWith, Bool.and_eq_true] at h ⊢
            refine ⟨h.1, ih ?_ h.2⟩
            intro compound listed other member
            exact simple compound listed other (List.mem_cons_of_mem word member)

theorem settled_mergeCompounds (ls : List Lexeme) : Settled (mergeCompounds ls) := by
  fun_induction mergeCompounds ls with
  | case1 =>
      intro rest ends
      rw [List.suffix_nil.mp ends]
      decide
  | case2 l ls words found ih =>
      have listed := List.mem_of_find?_eq_some found
      rw [settled_cons]
      refine ⟨List.find?_eq_none.mpr ?_, ih⟩
      intro other member starts
      cases other with
      | nil => exact absurd member (by decide)
      | cons word others =>
          rw [startWith_ofCompound (ne_joinWith_of_mem member listed word List.mem_cons_self)]
            at starts
          contradiction
  | case3 l ls absent ih =>
      rw [settled_cons]
      refine ⟨List.find?_eq_none.mpr ?_, ih⟩
      intro words member starts
      have merged : mergeCompounds (l :: ls) = l :: mergeCompounds ls := by
        rw [mergeCompounds, absent]
      rw [← merged] at starts
      have before := startWith_of_mergeCompounds (fun _ => ne_joinWith_of_mem member) starts
      exact absurd before (List.find?_eq_none.mp absent words member)

/-! ## Runs -/

theorem exists_runs (ls : List Lexeme) :
    ∃ runs : List (List Lexeme), runs.flatten = ls ∧
      List.Forall₂ Merged runs (mergeCompounds ls) := by
  fun_induction mergeCompounds ls with
  | case1 => exact ⟨[], rfl, .nil⟩
  | case2 l ls words found ih =>
      obtain ⟨runs, whole, merged⟩ := ih
      refine ⟨(l :: ls).take words.length :: runs, ?_, .cons (merged_take found) merged⟩
      have dropped : (l :: ls).drop words.length = ls.drop (words.length - 1) :=
        List.drop_cons (length_pos_of_compound? found)
      rw [List.flatten_cons, whole, ← dropped, List.take_append_drop]
  | case3 l ls absent ih =>
      obtain ⟨runs, whole, merged⟩ := ih
      refine ⟨[l] :: runs, ?_, .cons (.single l) merged⟩
      rw [List.flatten_cons, whole, List.singleton_append]

/-- Merging compound keywords divides lexemes into consecutive runs, each of which is a lexeme
    left as it is or the words of a compound. No lexemes that stand together afterwards are the
    words of a compound, and merging them again changes nothing. -/
theorem mergeCompounds_divides (ls : List Lexeme) :
    (∃ runs : List (List Lexeme), runs.flatten = ls ∧
      List.Forall₂ Merged runs (mergeCompounds ls)) ∧
    (∀ run, run <:+: mergeCompounds ls →
      ∀ words ∈ compoundKeywords, run.map token ≠ words.map .keyword) ∧
    mergeCompounds (mergeCompounds ls) = mergeCompounds ls := by
  have settled := settled_mergeCompounds ls
  refine ⟨exists_runs ls, ?_, mergeCompounds_of_settled settled⟩
  rintro run ⟨before, after, whole⟩ words listed spelled
  have starts : startWith words (run ++ after) = true := by
    rw [startWith_iff, List.map_append, spelled]
    exact List.prefix_append _ _
  have rest : run ++ after <:+ mergeCompounds ls := ⟨before, by rw [← whole, List.append_assoc]⟩
  exact absurd starts (List.find?_eq_none.mp (settled _ rest) words listed)

/-- `IF NOT` is no beginning of a compound before `NULL`, and `NOT NULL` is found behind `IF`. -/
theorem mergeCompounds_divides_ifNotNull :
    mergeCompounds [⟨.keyword "IF", "if", 0, 2⟩, ⟨.keyword "NOT", "not", 3, 6⟩,
        ⟨.keyword "NULL", "Null", 9, 13⟩] =
      [⟨.keyword "IF", "if", 0, 2⟩, ⟨.keyword "NOT NULL", "not Null", 3, 13⟩] ∧
    mergeCompounds [⟨.keyword "IF", "if", 0, 2⟩, ⟨.keyword "NOT NULL", "not Null", 3, 13⟩] =
      [⟨.keyword "IF", "if", 0, 2⟩, ⟨.keyword "NOT NULL", "not Null", 3, 13⟩] := by
  have merged : mergeCompounds [⟨.keyword "IF", "if", 0, 2⟩, ⟨.keyword "NOT", "not", 3, 6⟩,
      ⟨.keyword "NULL", "Null", 9, 13⟩] =
        [⟨.keyword "IF", "if", 0, 2⟩, ⟨.keyword "NOT NULL", "not Null", 3, 13⟩] := by
    decide +kernel
  obtain ⟨-, -, again⟩ := mergeCompounds_divides [⟨.keyword "IF", "if", 0, 2⟩,
    ⟨.keyword "NOT", "not", 3, 6⟩, ⟨.keyword "NULL", "Null", 9, 13⟩]
  rw [merged] at again
  exact ⟨merged, again⟩

end TableShift.Lexeme
