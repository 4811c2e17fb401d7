import Mathlib.Data.List.DropRight
import Mathlib.Data.List.Forall2
import TableShift.Proofs.Quotation
import TableShift.Proofs.Tiling

/-! # Letters outside quoted text

The case of letters outside quoted text changes no lexeme but the spelling of bare names:
a script and the same script in other letter case are read alike or refused at the same
place. Reading takes the same steps over both, and the tokens it finds on the way are the
same, for what is quoted in them is.
-/

namespace TableShift

namespace Lexeme

/-! ## Recased scripts -/

/-- A character stands for the marked one: the same, or outside quoted text the same letter
    in either case. -/
def Recases (p : Char × Bool) (c : Char) : Prop :=
  p.1.toUpper = c.toUpper ∧ (p.2 = true → p.1 = c)

/-- The other script is the script with the case of some letters outside quoted text changed. -/
def Recased (script other : String) : Prop :=
  List.Forall₂ Recases (marked script.toList) other.toList

instance (p : Char × Bool) (c : Char) : Decidable (Recases p c) :=
  inferInstanceAs (Decidable (p.1.toUpper = c.toUpper ∧ (p.2 = true → p.1 = c)))

/-- Whether characters are recased is seen one by one. -/
def decidableRecases :
    (ps : List (Char × Bool)) → (cs : List Char) → Decidable (List.Forall₂ Recases ps cs)
  | [], [] => .isTrue .nil
  | [], _ :: _ => .isFalse nofun
  | _ :: _, [] => .isFalse nofun
  | p :: ps, c :: cs =>
    have := decidableRecases ps cs
    decidable_of_iff (Recases p c ∧ List.Forall₂ Recases ps cs) List.forall₂_cons.symm

instance (script other : String) : Decidable (Recased script other) :=
  decidableRecases (marked script.toList) other.toList

/-! ## Lexemes in other letter case -/

/-- The lexeme is a name that stands in the script without quotes. -/
structure IsBareName (script : String) (l : Lexeme) (name : String) : Prop where
  token : l.token = .identifier name
  slice : sourceSlice script l.start l.stop = name
  letters : ∀ c ∈ name.toList, Scan.isWordChar c = true

/-- Lexemes of two scripts at the same place. The tokens are the same, or bare names that
    differ in letter case at most. -/
structure SameInCase (script other : String) (l m : Lexeme) : Prop where
  start : l.start = m.start
  stop : l.stop = m.stop
  token : l.token = m.token ∨
    ∃ name name', l.IsBareName script name ∧ m.IsBareName other name' ∧
      upperAscii name = upperAscii name'

/-- Both scripts are read, lexeme by lexeme alike, or both are refused at the same place. -/
inductive SameReading (script other : String) :
    Except SyntaxError (List Lexeme) → Except SyntaxError (List Lexeme) → Prop where
  | lexemes {ls ms : List Lexeme} (alike : List.Forall₂ (SameInCase script other) ls ms) :
      SameReading script other (.ok ls) (.ok ms)
  | complaint {e f : SyntaxError} (position : e.position = f.position) :
      SameReading script other (.error e) (.error f)

/-! ## Steps over a recased text -/

theorem exists_append_of_forall₂ {α β : Type} {R : α → β → Prop} {xs xs' : List α} {ys : List β}
    (h : List.Forall₂ R (xs ++ xs') ys) :
    ∃ zs zs', ys = zs ++ zs' ∧ List.Forall₂ R xs zs ∧ List.Forall₂ R xs' zs' := by
  have front := List.forall₂_take xs.length h
  have back := List.forall₂_drop xs.length h
  rw [List.take_left] at front
  rw [List.drop_left] at back
  exact ⟨_, _, (List.take_append_drop _ _).symm, front, back⟩

section Recases

variable {cs ds : List Char}

theorem sameLetters_of_recases {ps : List (Char × Bool)} (h : List.Forall₂ Recases ps ds) :
    SameLetters (ps.map Prod.fst) ds := by
  induction h with
  | nil => rfl
  | cons here _ ih => exact ih.cons here.1

theorem sameLetters_of_unquoted (h : List.Forall₂ Recases (cs.map (·, false)) ds) :
    SameLetters cs ds := by
  simpa [Function.comp_def] using sameLetters_of_recases h

theorem sameLetters_of_marked (h : List.Forall₂ Recases (marked cs) ds) : SameLetters cs ds := by
  have letters := sameLetters_of_recases h
  rwa [map_fst_marked] at letters

theorem eq_of_quoted (h : List.Forall₂ Recases (cs.map (·, true)) ds) : cs = ds := by
  rw [List.forall₂_map_left_iff] at h
  induction h with
  | nil => rfl
  | cons here _ ih => exact congrArg₂ List.cons (here.2 rfl) ih

theorem quotedPart_of_recases (h : List.Forall₂ Recases (markedToken cs) ds) :
    SameLetters cs ds ∧ Scan.quotedPart cs = Scan.quotedPart ds := by
  have letters := sameLetters_of_recases h
  rw [map_fst_markedToken] at letters
  obtain ⟨plain, quoted, rfl, front, back⟩ := exists_append_of_forall₂ h
  have outside : plain.all (!Scan.isQuote ·) = true := by
    have blind (c : Char) : (!Scan.isQuote c.toUpper) = !Scan.isQuote c := by
      rw [Scan.isQuote_toUpper]
    rw [← (sameLetters_of_unquoted front).all_eq blind, List.all_takeWhile]
  refine ⟨letters, ?_⟩
  rw [← eq_of_quoted back, Scan.quotedPart, Scan.quotedPart,
    List.dropWhile_append_of_pos (List.all_eq_true.mp outside), List.dropWhile_idempotent]

end Recases

theorem exists_piece_of_recases {cs ds piece rest : List Char}
    (found : Gap.piece? cs = some (piece, rest)) (h : List.Forall₂ Recases (marked cs) ds) :
    ∃ piece' rest', Gap.piece? ds = some (piece', rest') ∧ SameLetters piece piece' ∧
      List.Forall₂ Recases (marked rest) rest' := by
  have same := Gap.piece?_same (sameLetters_of_marked h)
  rw [marked_of_piece found] at h
  obtain ⟨piece', rest', rfl, front, back⟩ := exists_append_of_forall₂ h
  have taken := sameLetters_of_unquoted front
  rw [found] at same
  generalize found' : Gap.piece? (piece' ++ rest') = split at same
  cases same with
  | some same =>
      have width := (SameLetters.symm same.taken).length_eq.trans taken.length_eq
      obtain ⟨rfl, rfl⟩ := List.append_inj (Gap.append_of_piece? found') width
      exact ⟨_, _, rfl, taken, back⟩

theorem exists_token_of_recases {cs ds : List Char} {s : Scan} (gapless : Gap.piece? cs = none)
    (uncommented : startsComment cs = false) (found : Scan.token? cs = some s)
    (h : List.Forall₂ Recases (marked cs) ds) :
    ∃ t, Scan.token? ds = some t ∧ s.Alike t ∧ Scan.quotedPart s.taken = Scan.quotedPart t.taken ∧
      List.Forall₂ Recases (marked s.rest) t.rest := by
  have same := Scan.token?_alike (sameLetters_of_marked h)
  rw [marked_of_token gapless uncommented found] at h
  obtain ⟨taken', rest', rfl, front, back⟩ := exists_append_of_forall₂ h
  obtain ⟨taken, quoted⟩ := quotedPart_of_recases front
  rw [found] at same
  generalize found' : Scan.token? (taken' ++ rest') = scan at same
  cases same with
  | @some _ t alike =>
      have width := alike.taken.symm.length_eq.trans taken.length_eq
      obtain ⟨rfl, rfl⟩ := List.append_inj (Scan.splits_of_token? found').1 width
      exact ⟨t, rfl, alike, quoted, back⟩

/-! ## Reading a recased text -/

section Reading

variable {script other : String}

theorem SameReading.cons {l m : Lexeme} (first : SameInCase script other l m)
    {x y : Except SyntaxError (List Lexeme)} (h : SameReading script other x y) :
    SameReading script other (x.map (l :: ·)) (y.map (m :: ·)) := by
  cases h with
  | lexemes alike => exact .lexemes (.cons first alike)
  | complaint position => exact .complaint position

/-- Where neither a piece of a gap nor a token stands, reading ends in the same way. -/
theorem sameReading_of_still {cs ds : List Char} (h : SameLetters cs ds) (offset : Nat)
    (gapless : Gap.piece? cs = none)
    (tokenless : startsComment cs = true ∨ Scan.token? cs = none) :
    SameReading script other (scanFrom offset cs) (scanFrom offset ds) := by
  cases cs with
  | nil =>
      have ended : scanFrom offset [] = .ok [] := by
        rw [scanFrom_eq, Gap.leading_of_piece?_none rfl]
        rfl
      rw [h.nil_left, ended]
      exact .lexemes .nil
  | cons c cs =>
      obtain ⟨d, ds, rfl, -, -⟩ := h.exists_cons
      have stuck : Stuck (c :: cs) :=
        stuck_iff.mpr ⟨List.cons_ne_nil c cs, gapless, tokenless⟩
      rw [eq_none_iff_of_rel (Gap.piece?_same h)] at gapless
      rw [startsComment_eq h, eq_none_iff_of_rel (Scan.token?_alike h)] at tokenless
      have stuck' : Stuck (d :: ds) :=
        stuck_iff.mpr ⟨List.cons_ne_nil d ds, gapless, tokenless⟩
      rw [scanFrom_of_stuck offset stuck, scanFrom_of_stuck offset stuck']
      exact .complaint rfl

theorem sameInCase_ofScan {before before' : List Char} {s t : Scan}
    (whole : script.toList = before ++ (s.taken ++ s.rest))
    (whole' : other.toList = before' ++ (t.taken ++ t.rest)) (same : SameLetters before before')
    (alike : s.Alike t) (quoted : Scan.quotedPart s.taken = Scan.quotedPart t.taken) :
    SameInCase script other (ofScan (byteLength before) [] s) (ofScan (byteLength before') [] t) where
  start := by simp [ofScan, same.byteLength_eq]
  stop := by simp [ofScan, same.byteLength_eq, alike.taken.byteLength_eq]
  token := by
    rcases alike.token quoted with equal | ⟨bare, bare'⟩
    · exact .inl equal
    · refine .inr ⟨.ofList s.taken, .ofList t.taken, ⟨bare.token, sourceSlice_eq whole, ?_⟩,
        ⟨bare'.token, sourceSlice_eq whole', ?_⟩, alike.taken.upperAscii_eq⟩
      · simpa using bare.letters
      · simpa using bare'.letters

theorem sameReading_scanFrom {before before' cs ds : List Char}
    (whole : script.toList = before ++ cs) (whole' : other.toList = before' ++ ds)
    (same : SameLetters before before') (h : List.Forall₂ Recases (marked cs) ds) :
    SameReading script other (scanFrom (byteLength before) cs)
      (scanFrom (byteLength before') ds) := by
  have letters := sameLetters_of_marked h
  -- Along both texts, a piece of a gap or a token at a time.
  induction size : cs.length using Nat.strongRecOn generalizing before before' cs ds with
  | ind _ ih =>
      cases gap : Gap.piece? cs with
      | some split =>
          obtain ⟨piece, rest⟩ := split
          obtain ⟨piece', rest', gap', taken, later⟩ := exists_piece_of_recases gap h
          have shorter := Gap.length_lt_of_piece? gap
          rw [scanFrom_of_gap _ gap, scanFrom_of_gap _ gap', ← byteLength_append,
            ← byteLength_append]
          apply ih rest.length (by omega) _ _ (same.append taken) later
            (sameLetters_of_marked later) rfl
          · rw [whole, ← Gap.append_of_piece? gap, List.append_assoc]
          · rw [whole', ← Gap.append_of_piece? gap', List.append_assoc]
      | none =>
          by_cases tokenless : startsComment cs = true ∨ Scan.token? cs = none
          · rw [← same.byteLength_eq]
            exact sameReading_of_still letters _ gap tokenless
          · rw [not_or, Bool.not_eq_true] at tokenless
            obtain ⟨uncommented, token⟩ := tokenless
            obtain ⟨s, found⟩ := Option.ne_none_iff_exists'.mp token
            obtain ⟨t, found', alike, quoted, later⟩ :=
              exists_token_of_recases gap uncommented found h
            have gap' := (eq_none_iff_of_rel (Gap.piece?_same letters)).mp gap
            have uncommented' := (startsComment_eq letters).symm.trans uncommented
            have shorter := Scan.length_lt_of_token? found
            rw [← (Scan.splits_of_token? found).1] at whole
            rw [← (Scan.splits_of_token? found').1] at whole'
            rw [scanFrom_of_token _ (Gap.leading_of_piece?_none gap) uncommented found,
              scanFrom_of_token _ (Gap.leading_of_piece?_none gap') uncommented' found']
            apply SameReading.cons (sameInCase_ofScan whole whole' same alike quoted)
            have behind (before : List Char) (s : Scan) :
                (ofScan (byteLength before) [] s).stop = byteLength (before ++ s.taken) := by
              rw [byteLength_append]
              rfl
            rw [behind, behind]
            apply ih s.rest.length (by omega) _ _ (same.append alike.taken) later alike.rest rfl
            · rw [whole, List.append_assoc]
            · rw [whole', List.append_assoc]

/-! ## Compound keywords -/

theorem SameInCase.isKeyword_eq {l m : Lexeme} (h : SameInCase script other l m) (word : String) :
    l.token.isKeyword word = m.token.isKeyword word := by
  rcases h.token with same | ⟨name, name', bare, bare', -⟩
  · rw [same]
  · rw [bare.token, bare'.token]
    rfl

theorem startWith_eq {ls ms : List Lexeme} (h : List.Forall₂ (SameInCase script other) ls ms)
    (words : List String) : startWith words ls = startWith words ms := by
  induction words generalizing ls ms with
  | nil => rfl
  | cons word words ih =>
      cases h with
      | nil => rfl
      | cons first others => rw [startWith, startWith, first.isKeyword_eq, ih others]

theorem compound?_eq {ls ms : List Lexeme} (h : List.Forall₂ (SameInCase script other) ls ms) :
    compound? ls = compound? ms := by
  unfold compound?
  congr 1
  funext words
  exact startWith_eq h words

theorem sameInCase_ofCompound {ls ms : List Lexeme}
    (h : List.Forall₂ (SameInCase script other) ls ms) (words : List String) :
    SameInCase script other (ofCompound words ls) (ofCompound words ms) where
  start := by
    have starts : ls.map Lexeme.start = ms.map Lexeme.start := by
      induction h with
      | nil => rfl
      | cons first _ ih => exact congrArg₂ List.cons first.start ih
    simp only [ofCompound, ← List.head?_map, starts]
  stop := by
    have stops : ls.map Lexeme.stop = ms.map Lexeme.stop := by
      induction h with
      | nil => rfl
      | cons first _ ih => exact congrArg₂ List.cons first.stop ih
    simp only [ofCompound, ← List.getLast?_map, stops]
  token := .inl rfl

theorem forall₂_mergeCompounds {ls ms : List Lexeme}
    (h : List.Forall₂ (SameInCase script other) ls ms) :
    List.Forall₂ (SameInCase script other) (mergeCompounds ls) (mergeCompounds ms) := by
  fun_induction mergeCompounds ls generalizing ms with
  | case1 =>
      cases h
      rw [mergeCompounds]
      exact .nil
  | case2 l ls words found ih =>
      have found' := (compound?_eq h).symm.trans found
      have parts := sameInCase_ofCompound (List.forall₂_take words.length h) words
      cases h with
      | @cons _ m _ ms first others =>
          rw [mergeCompounds, found']
          exact .cons parts (ih (List.forall₂_drop _ others))
  | case3 l ls absent ih =>
      have absent' := (compound?_eq h).symm.trans absent
      cases h with
      | @cons _ m _ ms first others =>
          rw [mergeCompounds, absent']
          exact .cons first (ih others)

/-- Changing the case of letters outside quoted text leaves the places of all lexemes, and all
    tokens but for the case of bare names; a script that is refused is refused at the same
    place. -/
theorem tokenize_recased (h : Recased script other) :
    SameReading script other (tokenize script) (tokenize other) := by
  have nothing : SameLetters [] [] := rfl
  have scanned : SameReading script other (scanFrom 0 script.toList) (scanFrom 0 other.toList) :=
    sameReading_scanFrom (List.nil_append _).symm (List.nil_append _).symm nothing h
  unfold tokenize
  generalize scanFrom 0 script.toList = x, scanFrom 0 other.toList = y at scanned
  cases scanned with
  | lexemes alike => exact .lexemes (forall₂_mergeCompounds alike)
  | complaint position => exact .complaint position

/-- A compound keyword, a name between back quotes, the short form of a keyword, a literal and
    a word that begins like a number. -/
theorem tokenize_recased_charset :
    Recased "Primary /* a */ key `It` charset x'0a' 1e5"
        "PRIMARY /* A */ Key `It` CharSet X'0a' 1E5" ∧
      SameReading "Primary /* a */ key `It` charset x'0a' 1e5"
        "PRIMARY /* A */ Key `It` CharSet X'0a' 1E5"
        (tokenize "Primary /* a */ key `It` charset x'0a' 1e5")
        (tokenize "PRIMARY /* A */ Key `It` CharSet X'0a' 1E5") := by
  have recased : Recased "Primary /* a */ key `It` charset x'0a' 1e5"
      "PRIMARY /* A */ Key `It` CharSet X'0a' 1E5" := by decide +kernel
  exact ⟨recased, tokenize_recased recased⟩

/-- Letters in quoted text stay as they are, those before it do not. -/
example : Recased "x'a' `b`" "X'a' `b`" ∧ ¬ Recased "x'a'" "x'A'" ∧ ¬ Recased "`b`" "`B`" := by
  decide +kernel

end Reading

end Lexeme

end TableShift
