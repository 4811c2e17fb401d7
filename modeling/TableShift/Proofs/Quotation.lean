import TableShift.Proofs.LetterCase
import TableShift.Proofs.Squeezing

/-! # What is quoted in a script

Every character of a script is part of quoted text or not. This can be told without looking
for words, numbers and marks: outside gaps, quoted text begins at a quote and ends with the
quote that closes it. In a token it begins at the first quote and goes on to the end.
-/

namespace TableShift

namespace Scan

/-- The quoted text or the name between back quotes at the head of a text, and what follows. -/
def quotation? (cs : List Char) : Option (List Char × List Char) :=
  match quoted cs with
  | .found q => some (q.taken, q.rest)
  | _ => (backQuoted? cs).map fun s => (s.taken, s.rest)

theorem append_of_quotation? {cs taken rest : List Char}
    (h : quotation? cs = some (taken, rest)) : taken ++ rest = cs ∧ taken ≠ [] := by
  unfold quotation? at h
  split at h
  next found =>
    cases h
    exact append_of_quoted found
  next =>
    obtain ⟨s, found, split⟩ := Option.map_eq_some_iff.mp h
    cases split
    exact splits_of_backQuoted? found

theorem length_lt_of_quotation? {cs taken rest : List Char}
    (h : quotation? cs = some (taken, rest)) : rest.length < cs.length := by
  obtain ⟨rfl, nonempty⟩ := append_of_quotation? h
  have positive := List.length_pos_iff.mpr nonempty
  rw [List.length_append]
  omega

theorem quotation?_of_quoted {cs : List Char} {q : Quoted} (h : quoted cs = .found q) :
    quotation? cs = some (q.taken, q.rest) := by
  rw [quotation?, h]

theorem quotation?_of_backQuoted? {cs : List Char} {s : Scan} (h : backQuoted? cs = some s) :
    quotation? cs = some (s.taken, s.rest) := by
  have text : quoted cs = .absent := by
    cases cs with
    | nil => rfl
    | cons c cs =>
        by_cases opened : c = backQuote
        · rw [opened]
          rfl
        · rw [backQuoted?, if_neg opened] at h
          contradiction
  rw [quotation?, text, h]
  rfl

theorem exists_quoted_of_stringLiteral {cs : List Char} {s : Scan}
    (h : stringLiteral cs = .found s) :
    ∃ q, quoted cs = .found q ∧ s.taken = q.taken ∧ s.rest = q.rest := by
  rw [stringLiteral_eq_map] at h
  cases found : quoted cs with
  | found q =>
      rw [found] at h
      cases h
      exact ⟨q, rfl, rfl, rfl⟩
  | absent | broken =>
      rw [found] at h
      contradiction

theorem exists_quoted_of_radixLiteral {cs : List Char} {s : Scan}
    (h : radixLiteral cs = .found s) :
    ∃ c later q, cs = c :: later ∧ isQuote c = false ∧ quoted later = .found q ∧
      s.taken = c :: q.taken ∧ s.rest = q.rest := by
  cases cs with
  | nil => contradiction
  | cons c later =>
      cases announced : radixOf? c with
      | none => simp [radixLiteral, announced] at h
      | some radix =>
          rw [radixLiteral_eq_map announced] at h
          cases found : quoted later with
          | found q =>
              rw [found] at h
              cases h
              exact ⟨c, later, q, rfl, isQuote_of_radix announced, found, rfl, rfl⟩
          | absent | broken =>
              rw [found] at h
              contradiction

theorem isQuote_eq_false_iff {c : Char} :
    isQuote c = false ↔ ¬ (c = '\'' ∨ c = '"') ∧ c ≠ backQuote := by
  simp [isQuote]

theorem quotation?_of_unquoted {c : Char} (unquoted : isQuote c = false) (cs : List Char) :
    quotation? (c :: cs) = none := by
  obtain ⟨noText, noName⟩ := isQuote_eq_false_iff.mp unquoted
  have text : quoted (c :: cs) = .absent := if_neg noText
  have name : backQuoted? (c :: cs) = none := if_neg noName
  rw [quotation?, text, name]
  rfl

/-! ## Tokens that are not quoted -/

/-- Whether a character can stand inside a token that is not quoted. -/
def isInner (c : Char) : Bool :=
  isWordChar c || c.isDigit || c == '.'

theorem isBreak_of_isInner {c : Char} (h : isInner c = true) : isBreak c = false := by
  cases breaks : isBreak c with
  | false => rfl
  | true =>
      obtain ⟨noWord, noDigit, noPoint, -⟩ := isBreak_iff.mp breaks
      simp [isInner, noWord, noDigit, noPoint] at h

theorem isQuote_of_isInner {c : Char} (h : isInner c = true) : isQuote c = false := by
  rw [isQuote_eq_false_iff]
  refine ⟨?_, ?_⟩
  · rintro (rfl | rfl) <;> revert h <;> decide
  · rintro rfl
    revert h
    decide

/-- The characters of a token without quotes. -/
inductive Plain : List Char → Prop where
  | intro {c : Char} {cs : List Char} (unquoted : isQuote c = false)
      (inner : ∀ d ∈ cs, isInner d = true) : Plain (c :: cs)

theorem plain_of_isInner {cs : List Char} (nonempty : cs ≠ [])
    (inner : ∀ c ∈ cs, isInner c = true) : Plain cs := by
  cases cs with
  | nil => contradiction
  | cons c cs =>
      rw [List.forall_mem_cons] at inner
      exact .intro (isQuote_of_isInner inner.1) inner.2

theorem plain_of_number? {cs : List Char} {s : Scan} (h : number? cs = some s) :
    Plain s.taken := by
  have run (cs : List Char) : ∀ c ∈ cs.takeWhile Char.isDigit, isInner c = true := by
    intro c member
    simp [isInner, List.mem_takeWhile_imp member]
  have point (cs : List Char) : ∀ c ∈ (fraction cs).1, isInner c = true := by
    rcases fraction_cases cs with none | ⟨digits, point, inside⟩
    · simp [none]
    · rw [point, List.forall_mem_cons]
      exact ⟨rfl, fun c member => by simp [isInner, inside c member]⟩
  simp only [number?] at h
  split at h
  next => contradiction
  next listed =>
    cases h
    have digits := List.forall_mem_append.mpr
      ⟨run (sign cs).2, point ((sign cs).2.dropWhile Char.isDigit)⟩
    rw [List.append_assoc]
    rcases sign_cases cs with unsigned | minus
    · rw [unsigned, List.nil_append]
      refine plain_of_isInner ?_ digits
      intro none
      simp [(List.append_eq_nil_iff.mp none).1] at listed
    · rw [minus]
      exact .intro rfl digits

theorem plain_of_word? {cs : List Char} {s : Scan} (h : word? cs = some s) : Plain s.taken := by
  simp only [word?] at h
  split at h
  next => contradiction
  next nonempty =>
    cases h
    apply plain_of_isInner (by simpa using nonempty)
    intro c member
    simp [isInner, List.mem_takeWhile_imp member]

theorem plain_of_mark? {cs : List Char} {s : Scan} (h : mark? cs = some s) : Plain s.taken := by
  have unquoted : marks.all (!isQuote ·) = true := by decide
  unfold mark? at h
  split at h
  next => contradiction
  next c cs =>
    split at h
    next listed =>
      cases h
      refine .intro ?_ (by simp)
      simpa using List.all_eq_true.mp unquoted c (List.contains_iff_mem.mp listed)
    next => contradiction

end Scan

namespace Lexeme

/-! ## Marks -/

/-- The characters of a text, each with whether it is part of quoted text, that is, of a text
    between two quotes of one kind. In a gap nothing is quoted, nor behind a quote that is not
    closed or a comment that does not end. -/
def marked (cs : List Char) : List (Char × Bool) :=
  match _h : Gap.piece? cs with
  | some (piece, rest) => piece.map (·, false) ++ marked rest
  | none =>
    match _h : Scan.quotation? cs with
    | some (quotation, rest) => quotation.map (·, true) ++ marked rest
    | none =>
      match cs with
      | [] => []
      | c :: rest =>
        if Scan.isQuote c || startsComment (c :: rest) then (c :: rest).map (·, false)
        else (c, false) :: marked rest
termination_by cs.length
decreasing_by
  · exact Gap.length_lt_of_piece? _h
  · exact Scan.length_lt_of_quotation? _h
  · exact Nat.lt_succ_self _

theorem map_fst_marked (cs : List Char) : (marked cs).map Prod.fst = cs := by
  fun_induction marked cs with
  | case1 cs piece rest found ih => simpa [Function.comp_def, ih] using Gap.append_of_piece? found
  | case2 cs _ quotation rest found ih =>
      simpa [Function.comp_def, ih] using (Scan.append_of_quotation? found).1
  | case3 => rfl
  | case4 => simp [Function.comp_def]
  | case5 c rest _ _ _ ih => simp [ih]

theorem marked_of_piece {cs piece rest : List Char} (found : Gap.piece? cs = some (piece, rest)) :
    marked cs = piece.map (·, false) ++ marked rest := by
  rw [marked]
  split
  next found' =>
    cases found.symm.trans found'
    rfl
  next absent => simp [found] at absent

theorem marked_of_quotation {cs quotation rest : List Char} (gapless : Gap.piece? cs = none)
    (found : Scan.quotation? cs = some (quotation, rest)) :
    marked cs = quotation.map (·, true) ++ marked rest := by
  rw [marked]
  split
  next piece => simp [gapless] at piece
  next =>
    split
    next found' =>
      cases found.symm.trans found'
      rfl
    next absent => simp [found] at absent

theorem marked_cons {c : Char} {cs : List Char} (gapless : Gap.piece? (c :: cs) = none)
    (uncommented : startsComment (c :: cs) = false) (unquoted : Scan.isQuote c = false) :
    marked (c :: cs) = (c, false) :: marked cs := by
  rw [marked]
  split
  next piece => simp [gapless] at piece
  next =>
    split
    next found => simp [Scan.quotation?_of_unquoted unquoted] at found
    next => simp [unquoted, uncommented]

/-! ## Marks of tokens -/

/-- The characters of a token, each with whether it is part of quoted text. -/
def markedToken (taken : List Char) : List (Char × Bool) :=
  (taken.takeWhile (!Scan.isQuote ·)).map (·, false) ++ (Scan.quotedPart taken).map (·, true)

theorem map_fst_markedToken (taken : List Char) : (markedToken taken).map Prod.fst = taken := by
  simp [markedToken, Scan.quotedPart, Function.comp_def, List.takeWhile_append_dropWhile]

theorem markedToken_of_isQuote {c : Char} (quote : Scan.isQuote c = true) (cs : List Char) :
    markedToken (c :: cs) = (c :: cs).map (·, true) := by
  simp [markedToken, Scan.quotedPart, quote]

theorem markedToken_cons {c : Char} (unquoted : Scan.isQuote c = false) (cs : List Char) :
    markedToken (c :: cs) = (c, false) :: markedToken cs := by
  simp [markedToken, Scan.quotedPart, unquoted]

theorem opens_of_isInner {c : Char} (h : Scan.isInner c = true) (cs : List Char) :
    Gap.opens (c :: cs) = false := by
  cases opens : Gap.opens (c :: cs) with
  | false => rfl
  | true =>
      have breaks := Gap.isBreak_of_opens opens
      rw [Scan.isBreak_of_isInner h] at breaks
      contradiction

theorem marked_append_of_isInner {cs : List Char} (inner : ∀ c ∈ cs, Scan.isInner c = true)
    (rest : List Char) : marked (cs ++ rest) = markedToken cs ++ marked rest := by
  induction cs with
  | nil => rfl
  | cons c cs ih =>
      rw [List.forall_mem_cons] at inner
      have unquoted := Scan.isQuote_of_isInner inner.1
      have closed := opens_of_isInner inner.1 (cs ++ rest)
      rw [List.cons_append, marked_cons (Gap.piece?_of_closed closed)
        (Gap.startsComment_of_closed closed) unquoted, ih inner.2, markedToken_cons unquoted]
      rfl

theorem marked_of_plain {taken rest : List Char} (plain : Scan.Plain taken)
    (gapless : Gap.piece? (taken ++ rest) = none)
    (uncommented : startsComment (taken ++ rest) = false) :
    marked (taken ++ rest) = markedToken taken ++ marked rest := by
  obtain ⟨unquoted, inner⟩ := plain
  rw [List.cons_append] at gapless uncommented ⊢
  rw [marked_cons gapless uncommented unquoted, marked_append_of_isInner inner,
    markedToken_cons unquoted]
  rfl

theorem piece?_of_isQuote {c : Char} (quote : Scan.isQuote c = true) (cs : List Char) :
    Gap.piece? (c :: cs) = none := by
  simp only [Scan.isQuote, Bool.or_eq_true, beq_iff_eq] at quote
  rcases quote with (rfl | rfl) | rfl <;> rfl

theorem marked_of_quotation? {cs taken rest : List Char}
    (found : Scan.quotation? cs = some (taken, rest)) :
    marked cs = markedToken taken ++ marked rest := by
  obtain ⟨split, nonempty⟩ := Scan.append_of_quotation? found
  obtain ⟨c, inside, rfl⟩ := List.exists_cons_of_ne_nil nonempty
  have quote : Scan.isQuote c = true := by
    cases quote : Scan.isQuote c with
    | true => rfl
    | false =>
        rw [← split, List.cons_append, Scan.quotation?_of_unquoted quote] at found
        contradiction
  have gapless : Gap.piece? cs = none := by
    rw [← split]
    exact piece?_of_isQuote quote _
  rw [marked_of_quotation gapless found, markedToken_of_isQuote quote]

/-- In a token, quoted text begins at its first quote, and nothing is quoted behind it. -/
theorem marked_of_token {cs : List Char} {s : Scan} (gapless : Gap.piece? cs = none)
    (uncommented : startsComment cs = false) (found : Scan.token? cs = some s) :
    marked cs = markedToken s.taken ++ marked s.rest := by
  have ofPlain (plain : Scan.Plain s.taken) :
      marked cs = markedToken s.taken ++ marked s.rest := by
    rw [← (Scan.splits_of_token? found).1] at gapless uncommented ⊢
    exact marked_of_plain plain gapless uncommented
  rcases Scan.shape_of_token? found with name | text | digits | number | word | mark
  · exact marked_of_quotation? (Scan.quotation?_of_backQuoted? name)
  · obtain ⟨q, quoted, taken, rest⟩ := Scan.exists_quoted_of_stringLiteral text
    rw [taken, rest]
    exact marked_of_quotation? (Scan.quotation?_of_quoted quoted)
  · obtain ⟨c, later, q, rfl, unquoted, quoted, taken, rest⟩ :=
      Scan.exists_quoted_of_radixLiteral digits
    rw [marked_cons gapless uncommented unquoted,
      marked_of_quotation? (Scan.quotation?_of_quoted quoted), taken, rest,
      markedToken_cons unquoted]
    rfl
  · exact ofPlain (Scan.plain_of_number? number)
  · exact ofPlain (Scan.plain_of_word? word)
  · exact ofPlain (Scan.plain_of_mark? mark)

end Lexeme

end TableShift
