import Mathlib.Data.List.TakeWhile
import TableShift.Proofs.Relocation

/-! # Reading up to a boundary

A text that ends in the middle of nothing can be followed by a blank without a change
to its lexemes: a blank goes on with no word, numeral, quoted text or comment marker. A
blank, a line feed and a semicolon therefore end whatever was going on, a line comment
included, and what follows the semicolon is read as if it stood alone.
-/

namespace TableShift

section Runs

variable {p : Char → Bool}

theorem takeWhile_append_cons {c : Char} (h : p c = false) (cs more : List Char) :
    (cs ++ c :: more).takeWhile p = cs.takeWhile p := by
  induction cs with
  | nil => simp [h]
  | cons d cs ih => cases hd : p d <;> simp [hd, ih]

theorem dropWhile_append_cons {c : Char} (h : p c = false) (cs more : List Char) :
    (cs ++ c :: more).dropWhile p = cs.dropWhile p ++ c :: more := by
  induction cs with
  | nil => simp [h]
  | cons d cs ih => cases hd : p d <;> simp [hd, ih]

theorem takeWhile_append_of_stops {cs : List Char} (h : cs.dropWhile p ≠ []) (more : List Char) :
    (cs ++ more).takeWhile p = cs.takeWhile p := by
  induction cs with
  | nil => simp at h
  | cons d cs ih =>
      cases hd : p d with
      | true => simp [hd, ih (by simpa [hd] using h)]
      | false => simp [hd]

theorem dropWhile_append_of_stops {cs : List Char} (h : cs.dropWhile p ≠ []) (more : List Char) :
    (cs ++ more).dropWhile p = cs.dropWhile p ++ more := by
  induction cs with
  | nil => simp at h
  | cons d cs ih =>
      cases hd : p d with
      | true => simp [hd, ih (by simpa [hd] using h)]
      | false => simp [hd]

end Runs

/-- What was found, changed by a function. -/
def Attempt.map {α β : Type} (f : α → β) : Attempt α → Attempt β
  | found a => found (f a)
  | absent => absent
  | broken => broken

/-! ## Tokens -/

namespace Scan

/-- Whether a character goes on with no token, whatever stands before it. -/
def isBreak (c : Char) : Bool :=
  !isWordChar c && !c.isDigit && c != '.' && c != '\'' && c != '"'

theorem isBreak_iff {c : Char} :
    isBreak c = true ↔
      isWordChar c = false ∧ c.isDigit = false ∧ c ≠ '.' ∧ c ≠ '\'' ∧ c ≠ '"' := by
  simp [isBreak, and_assoc]

/-- The scan of a token when more text follows. -/
def followedBy (more : List Char) (s : Scan) : Scan :=
  { s with rest := s.rest ++ more }

/-- Quoted text when more text follows. -/
def Quoted.followedBy (more : List Char) (q : Quoted) : Quoted :=
  { q with rest := q.rest ++ more }

theorem backQuoted?_followed (more : List Char) {cs : List Char} {s : Scan}
    (h : backQuoted? cs = some s) : backQuoted? (cs ++ more) = some (s.followedBy more) := by
  cases cs with
  | nil => simp [backQuoted?] at h
  | cons c cs =>
      by_cases opened : c = backQuote
      · cases closing : cs.dropWhile (· != backQuote) with
        | nil => simp [backQuoted?, opened, closing] at h
        | cons close rest =>
            have stops : cs.dropWhile (· != backQuote) ≠ [] := by simp [closing]
            simp only [backQuoted?, opened, if_true, closing, Option.some.injEq] at h
            subst h
            simp only [List.cons_append, backQuoted?, opened, if_true,
              takeWhile_append_of_stops stops, dropWhile_append_of_stops stops, closing]
            rfl
      · simp [backQuoted?, opened] at h

section Break

variable {e : Char} (more : List Char)

theorem quotedBody?_followed {quote : Char} (visible : e ≠ quote) {cs : List Char} {q : Quoted}
    (h : quotedBody? quote cs = some q) :
    quotedBody? quote (cs ++ e :: more) = some (q.followedBy (e :: more)) := by
  fun_induction quotedBody? quote cs generalizing q with
  | case1 | case2 | case4 => simp at h
  | case3 unescaped =>
      cases h
      simp [quotedBody?, unescaped, visible, Quoted.followedBy]
  | case5 d cs ih =>
      obtain ⟨inner, found, rfl⟩ := Option.map_eq_some_iff.mp h
      simp [quotedBody?, ih found, Quoted.followedBy, Quoted.cons]
  | case6 cs unescaped ih =>
      obtain ⟨inner, found, rfl⟩ := Option.map_eq_some_iff.mp h
      simp [quotedBody?, unescaped, ih found, Quoted.followedBy, Quoted.cons]
  | case7 d cs unescaped undoubled =>
      cases h
      simp [quotedBody?, unescaped, undoubled, Quoted.followedBy]
  | case8 c d cs unescaped open_ ih =>
      obtain ⟨inner, found, rfl⟩ := Option.map_eq_some_iff.mp h
      have inside := ih found
      rw [List.cons_append] at inside
      simp [quotedBody?, unescaped, open_, inside, Quoted.followedBy, Quoted.cons]

variable (ends : isBreak e = true)
include ends

theorem quoted_followed {cs : List Char} (h : quoted cs ≠ .broken) :
    quoted (cs ++ e :: more) = (quoted cs).map (Quoted.followedBy (e :: more)) := by
  obtain ⟨-, -, -, noSingle, noDouble⟩ := isBreak_iff.mp ends
  cases cs with
  | nil => simp [quoted, noSingle, noDouble, Attempt.map]
  | cons c cs =>
      by_cases opened : c = '\'' ∨ c = '"'
      · have visible : e ≠ c := by
          rintro rfl
          exact opened.elim noSingle noDouble
        cases body : quotedBody? c cs with
        | none => simp [quoted, opened, body] at h
        | some q =>
            simp only [List.cons_append, quoted, if_pos opened, body,
              quotedBody?_followed more visible body]
            rfl
      · simp [quoted, opened, Attempt.map]

theorem stringLiteral_followed {cs : List Char} (h : stringLiteral cs ≠ .broken) :
    stringLiteral (cs ++ e :: more) = (stringLiteral cs).map (followedBy (e :: more)) := by
  have unbroken : quoted cs ≠ .broken := by
    intro broken
    simp [stringLiteral, broken] at h
  rw [stringLiteral, stringLiteral, quoted_followed more ends unbroken]
  cases quoted cs <;> rfl

theorem radixLiteral_followed {cs : List Char} (nonempty : cs ≠ [])
    (h : radixLiteral cs ≠ .broken) :
    radixLiteral (cs ++ e :: more) = (radixLiteral cs).map (followedBy (e :: more)) := by
  obtain ⟨c, cs, rfl⟩ := List.exists_cons_of_ne_nil nonempty
  cases announced : radixOf? c with
  | none => simp [radixLiteral, announced, Attempt.map]
  | some radix =>
      have unbroken : quoted cs ≠ .broken := by
        intro broken
        simp [radixLiteral, announced, broken] at h
      simp only [List.cons_append, radixLiteral, announced, quoted_followed more ends unbroken]
      cases quoted cs <;> rfl

omit ends in
theorem sign_followed {cs : List Char} (nonempty : cs ≠ []) :
    sign (cs ++ more) = ((sign cs).1, (sign cs).2 ++ more) := by
  obtain ⟨c, cs, rfl⟩ := List.exists_cons_of_ne_nil nonempty
  by_cases minus : c = '-'
  · subst minus
    rfl
  · simp [sign, minus]

theorem fraction_followed (cs : List Char) :
    fraction (cs ++ e :: more) = ((fraction cs).1, (fraction cs).2 ++ e :: more) := by
  obtain ⟨-, noDigit, noPoint, -, -⟩ := isBreak_iff.mp ends
  cases cs with
  | nil => simp [fraction, noPoint]
  | cons c cs =>
      by_cases point : c = '.'
      · subst point
        simp only [List.cons_append, fraction, takeWhile_append_cons noDigit,
          dropWhile_append_cons noDigit]
      · simp [fraction, point]

theorem number?_followed {cs : List Char} (nonempty : cs ≠ []) :
    number? (cs ++ e :: more) = (number? cs).map (followedBy (e :: more)) := by
  obtain ⟨noLetter, noDigit, -, -, -⟩ := isBreak_iff.mp ends
  have stops (rest : List Char) :
      (rest ++ e :: more).head?.any isWordChar = rest.head?.any isWordChar := by
    cases rest with
    | nil => exact noLetter
    | cons c rest => rfl
  simp only [number?, sign_followed _ nonempty, takeWhile_append_cons noDigit,
    dropWhile_append_cons noDigit, fraction_followed more ends, stops]
  split
  · rfl
  · rfl

theorem word?_followed (cs : List Char) :
    word? (cs ++ e :: more) = (word? cs).map (followedBy (e :: more)) := by
  have noLetter := (isBreak_iff.mp ends).1
  simp only [word?, takeWhile_append_cons noLetter, dropWhile_append_cons noLetter]
  split
  · rfl
  · rfl

omit ends in
theorem mark?_followed {cs : List Char} (nonempty : cs ≠ []) :
    mark? (cs ++ more) = (mark? cs).map (followedBy more) := by
  obtain ⟨c, cs, rfl⟩ := List.exists_cons_of_ne_nil nonempty
  simp only [List.cons_append, mark?]
  split
  · rfl
  · rfl

end Break

theorem number?_eq_none {c : Char} (unsigned : c ≠ '-') (noDigit : c.isDigit = false)
    (cs : List Char) : number? (c :: cs) = none := by
  have plain : sign (c :: cs) = ([], c :: cs) := by simp [sign, unsigned]
  simp [number?, plain, noDigit]

theorem word?_eq_none {c : Char} (noLetter : isWordChar c = false) (cs : List Char) :
    word? (c :: cs) = none := by
  simp [word?, noLetter]

theorem token?_backQuote (cs : List Char) :
    token? (backQuote :: cs) = backQuoted? (backQuote :: cs) := by
  rw [token?]
  cases backQuoted? (backQuote :: cs) with
  | some s => rfl
  | none =>
      have noString : stringLiteral (backQuote :: cs) = .absent := rfl
      have noRadix : radixLiteral (backQuote :: cs) = .absent := rfl
      have noMark : mark? (backQuote :: cs) = none := rfl
      simp only [noString, noRadix, number?_eq_none (show backQuote ≠ '-' by decide) rfl cs,
        word?_eq_none (show isWordChar backQuote = false by decide) cs, noMark, Option.or_none]

theorem token?_semicolon (cs : List Char) :
    token? (';' :: cs) = some ⟨.punct ';', ";", [';'], cs⟩ := by
  have noName : backQuoted? (';' :: cs) = none := rfl
  have noString : stringLiteral (';' :: cs) = .absent := rfl
  have noRadix : radixLiteral (';' :: cs) = .absent := rfl
  simp only [token?, noName, noString, noRadix, number?_eq_none (show ';' ≠ '-' by decide) rfl cs,
    word?_eq_none (show isWordChar ';' = false by decide) cs, Option.none_or]
  rfl

/-- A token is the same when a character follows the text that goes on with no token. -/
theorem token?_followed {e : Char} (ends : isBreak e = true) (more : List Char) {cs : List Char}
    {s : Scan} (h : token? cs = some s) :
    token? (cs ++ e :: more) = some (s.followedBy (e :: more)) := by
  have nonempty : cs ≠ [] := by
    rintro rfl
    contradiction
  cases named : backQuoted? cs with
  | some found =>
      have : found = s := by simpa [token?, named] using h
      rw [token?, backQuoted?_followed _ named, this]
  | none =>
      have unnamed : backQuoted? (cs ++ e :: more) = none := by
        obtain ⟨c, cs, rfl⟩ := List.exists_cons_of_ne_nil nonempty
        have plain : c ≠ backQuote := by
          rintro rfl
          rw [token?_backQuote, named] at h
          contradiction
        simp [backQuoted?, plain]
      rw [token?, named] at h
      rw [token?, unnamed]
      have unbroken : stringLiteral cs ≠ .broken := by
        intro broken
        simp [broken] at h
      simp only [stringLiteral_followed more ends unbroken]
      cases text : stringLiteral cs with
      | broken => contradiction
      | found literal => simp_all [Attempt.map]
      | absent =>
          have unbroken : radixLiteral cs ≠ .broken := by
            intro broken
            simp [text, broken] at h
          simp only [Attempt.map, radixLiteral_followed more ends nonempty unbroken]
          cases digits : radixLiteral cs with
          | broken => contradiction
          | found literal => simp_all
          | absent =>
              simp only [text, digits] at h
              simp only [number?_followed more ends nonempty, word?_followed more ends,
                mark?_followed _ nonempty, ← Option.map_or, h, Option.map_some]

end Scan

/-! ## Gaps -/

namespace Gap

/-- A blank does not make a lone carriage return the end of a line. -/
theorem endsLine_blank (rest more : List Char) : endsLine (rest ++ ' ' :: more) = endsLine rest := by
  cases rest with
  | nil => rfl
  | cons c rest =>
      by_cases return_ : c = '\r'
      · subst return_
        cases rest <;> rfl
      · simp [endsLine, return_]

theorem restOfLine?_followed {cs : List Char} (stops : cs.dropWhile inLine ≠ [])
    (more : List Char) :
    restOfLine? (cs ++ ' ' :: more) =
      (restOfLine? cs).map (Prod.map id (· ++ ' ' :: more)) := by
  rw [restOfLine?, restOfLine?, takeWhile_append_of_stops stops, dropWhile_append_of_stops stops,
    endsLine_blank]
  split
  · rfl
  · rfl

/-- A line that ends with the text takes the blank that follows, up to a line feed. -/
theorem restOfLine?_ended {cs : List Char} (ends : cs.dropWhile inLine = []) (more : List Char) :
    restOfLine? cs = some (cs, []) ∧
      restOfLine? (cs ++ ' ' :: '\n' :: more) = some (cs ++ [' '], '\n' :: more) := by
  have inside : ∀ c ∈ cs, inLine c := List.dropWhile_eq_nil_iff.mp ends
  constructor
  · rw [restOfLine?, ends, List.takeWhile_eq_self_iff.mpr inside]
    rfl
  · rw [restOfLine?, List.takeWhile_append_of_pos inside, List.dropWhile_append_of_pos inside]
    rfl

theorem throughClose?_followed {cs body rest : List Char}
    (h : throughClose? cs = some (body, rest)) (more : List Char) :
    throughClose? (cs ++ more) = some (body, rest ++ more) := by
  induction cs generalizing body rest with
  | nil => simp [throughClose?] at h
  | cons c cs ih =>
      by_cases closes : c = '*' ∧ cs.head? = some '/'
      · obtain ⟨rfl, slash⟩ := closes
        cases cs with
        | nil => simp at slash
        | cons d ds => simp_all [throughClose?]
      · cases found : throughClose? cs with
        | none => simp [throughClose?, closes, found] at h
        | some split =>
            obtain ⟨inner, after⟩ := split
            have open_ : ¬ (c = '*' ∧ (cs ++ more).head? = some '/') := by
              cases cs with
              | nil => simp [throughClose?] at found
              | cons d ds => exact closes
            simp only [throughClose?, if_neg closes, found, Option.some.injEq, Prod.mk.injEq] at h
            simp only [List.cons_append, throughClose?, if_neg open_, ih found, h]

theorem piece?_blanks {c : Char} {cs : List Char} (noDash : ¬ (c = '-' ∧ cs.head? = some '-'))
    (noHash : c ≠ '#') (noStar : ¬ (c = '/' ∧ cs.head? = some '*')) :
    piece? (c :: cs) =
      if isSpace c then some (c :: cs.takeWhile isSpace, cs.dropWhile isSpace) else none := by
  unfold piece?
  split <;> simp_all

/-- What separates a text from the next one. -/
def boundary (next : List Char) : List Char :=
  ' ' :: '\n' :: ';' :: next

theorem leading_of_piece? {cs piece rest : List Char} (h : piece? cs = some (piece, rest)) :
    leading cs = (piece ++ (leading rest).1, (leading rest).2) := by
  rw [leading]
  split
  next found =>
    cases found.symm.trans h
    rfl
  next absent => cases absent.symm.trans h

theorem leading_of_piece?_none {cs : List Char} (h : piece? cs = none) : leading cs = ([], cs) := by
  rw [leading]
  split
  next found => cases found.symm.trans h
  next => rfl

/-- How a text goes on at its head when a boundary follows it. -/
inductive Bounded (next cs : List Char) : Prop where
  /-- The first piece ends before the boundary. -/
  | within (piece rest : List Char) (alone : piece? cs = some (piece, rest))
      (followed : piece? (cs ++ boundary next) = some (piece, rest ++ boundary next))
  /-- The first piece is the whole text, and the gap goes on up to the semicolon. -/
  | reaching (alone : piece? cs = some (cs, []))
      (followed : leading (cs ++ boundary next) = (cs ++ [' ', '\n'], ';' :: next))
  /-- No piece stands there. -/
  | absent (alone : piece? cs = none) (followed : piece? (cs ++ boundary next) = none)
  /-- A block comment stands there that is not closed. -/
  | unclosed (alone : piece? cs = none) (opened : Lexeme.startsComment cs = true)

variable (next : List Char)

theorem leading_semicolon : leading (';' :: next) = ([], ';' :: next) :=
  leading_of_piece?_none rfl

theorem leading_lineFeed : leading ('\n' :: ';' :: next) = (['\n'], ';' :: next) := by
  have piece : piece? ('\n' :: ';' :: next) = some (['\n'], ';' :: next) := rfl
  rw [leading_of_piece? piece, leading_semicolon]
  rfl

theorem leading_boundary_nil : leading (boundary next) = ([' ', '\n'], ';' :: next) := by
  have piece : piece? (boundary next) = some ([' ', '\n'], ';' :: next) := rfl
  rw [leading_of_piece? piece, leading_semicolon]
  rfl

/-- A line comment ends before the boundary or with its blank. -/
theorem bounded_line (opener : List Char) {cs : List Char}
    (line : ∀ cs, piece? (opener ++ cs) = (restOfLine? cs).map (Prod.map (opener ++ ·) id)) :
    Bounded next (opener ++ cs) := by
  by_cases ends : cs.dropWhile inLine = []
  · obtain ⟨alone, followed⟩ := restOfLine?_ended ends (';' :: next)
    refine .reaching (by rw [line, alone]; rfl) ?_
    have piece : piece? (opener ++ cs ++ boundary next) =
        some (opener ++ (cs ++ [' ']), '\n' :: ';' :: next) := by
      rw [List.append_assoc, line, boundary, followed]
      rfl
    rw [leading_of_piece? piece, leading_lineFeed]
    simp
  · have followed := restOfLine?_followed ends ('\n' :: ';' :: next)
    cases alone : restOfLine? cs with
    | none =>
        refine .absent (by rw [line, alone]; rfl) ?_
        rw [List.append_assoc, line, boundary, followed, alone]
        rfl
    | some split =>
        refine .within (opener ++ split.1) split.2 (by rw [line, alone]; rfl) ?_
        rw [List.append_assoc, line, boundary, followed, alone]
        rfl

theorem bounded_block (cs : List Char) : Bounded next ('/' :: '*' :: cs) := by
  cases closed : throughClose? cs with
  | none => exact .unclosed (by simp only [piece?, closed]) rfl
  | some split =>
      have followed := throughClose?_followed closed (boundary next)
      refine .within ('/' :: '*' :: split.1) split.2 ?_ ?_
      · simp only [piece?, closed]
      · simp only [List.cons_append, piece?, followed]

theorem bounded_blanks {c : Char} {cs : List Char} (noDash : ¬ (c = '-' ∧ cs.head? = some '-'))
    (noHash : c ≠ '#') (noStar : ¬ (c = '/' ∧ cs.head? = some '*')) :
    Bounded next (c :: cs) := by
  have alone := piece?_blanks noDash noHash noStar
  -- The blank that follows completes no opener.
  have followed : piece? (c :: (cs ++ boundary next)) =
      if isSpace c then
        some (c :: (cs ++ boundary next).takeWhile isSpace, (cs ++ boundary next).dropWhile isSpace)
      else none := by
    cases cs with
    | nil => exact piece?_blanks (by simp [boundary]) noHash (by simp [boundary])
    | cons d cs => exact piece?_blanks noDash noHash noStar
  cases blank : isSpace c with
  | false =>
      rw [blank] at alone followed
      exact .absent alone followed
  | true =>
      rw [blank] at alone followed
      by_cases ends : cs.dropWhile isSpace = []
      · have inside : ∀ d ∈ cs, isSpace d := List.dropWhile_eq_nil_iff.mp ends
        rw [ends, List.takeWhile_eq_self_iff.mpr inside] at alone
        rw [List.takeWhile_append_of_pos inside, List.dropWhile_append_of_pos inside] at followed
        refine .reaching alone ?_
        rw [List.cons_append, leading_of_piece? followed]
        have rest : (boundary next).dropWhile isSpace = ';' :: next := rfl
        rw [rest, leading_semicolon]
        simp [boundary, isSpace]
      · rw [takeWhile_append_of_stops ends, dropWhile_append_of_stops ends] at followed
        exact .within _ _ alone followed

theorem bounded {cs : List Char} (h : cs ≠ []) : Bounded next cs := by
  obtain ⟨c, cs, rfl⟩ := List.exists_cons_of_ne_nil h
  by_cases dash : c = '-' ∧ cs.head? = some '-'
  · obtain ⟨rfl, second⟩ := dash
    obtain ⟨cs, rfl⟩ := List.head?_eq_some_iff.mp second
    refine bounded_line next ['-', '-'] fun cs => ?_
    cases line : restOfLine? cs <;> simp [piece?, line, Prod.map]
  · by_cases hash : c = '#'
    · subst hash
      refine bounded_line next ['#'] fun cs => ?_
      cases line : restOfLine? cs <;> simp [piece?, line, Prod.map]
    · by_cases star : c = '/' ∧ cs.head? = some '*'
      · obtain ⟨rfl, second⟩ := star
        obtain ⟨cs, rfl⟩ := List.head?_eq_some_iff.mp second
        exact bounded_block next cs
      · exact bounded_blanks next dash hash star

theorem leading_boundary_of_gap {cs : List Char} (h : (leading cs).2 = []) :
    leading (cs ++ boundary next) = (cs ++ [' ', '\n'], ';' :: next) := by
  induction size : cs.length using Nat.strongRecOn generalizing cs with
  | ind _ ih =>
      by_cases ended : cs = []
      · subst ended
        exact leading_boundary_nil next
      · cases bounded next ended with
        | reaching _ followed => exact followed
        | within piece rest alone followed =>
            rw [leading_of_piece? alone] at h
            have gap := ih _ (size ▸ length_lt_of_piece? alone) h rfl
            rw [leading_of_piece? followed, gap, ← append_of_piece? alone]
            simp
        | absent alone | unclosed alone =>
            rw [leading_of_piece?_none alone] at h
            contradiction

theorem leading_boundary_of_token {cs : List Char} (h : (leading cs).2 ≠ [])
    (closed : Lexeme.startsComment (leading cs).2 = false) :
    leading (cs ++ boundary next) = ((leading cs).1, (leading cs).2 ++ boundary next) := by
  induction size : cs.length using Nat.strongRecOn generalizing cs with
  | ind _ ih =>
      have nothing : leading [] = ([], []) := leading_of_piece?_none rfl
      by_cases ended : cs = []
      · simp [ended, nothing] at h
      · cases bounded next ended with
        | reaching alone _ => simp [leading_of_piece? alone, nothing] at h
        | within piece rest alone followed =>
            rw [leading_of_piece? alone] at h closed ⊢
            rw [leading_of_piece? followed, ih _ (size ▸ length_lt_of_piece? alone) h closed rfl]
        | absent alone followed =>
            rw [leading_of_piece?_none alone, leading_of_piece?_none followed]
        | unclosed alone opened =>
            rw [leading_of_piece?_none alone, opened] at closed
            contradiction

end Gap

/-! ## Texts -/

namespace Lexeme

def semicolonAt (start : Nat) : Lexeme :=
  ⟨.punct ';', ";", start, start + 1⟩

theorem scanFrom_relocate (shift offset : Nat) (cs : List Char) :
    scanFrom (offset + shift) cs =
      relocateResult (· + shift) (List.map (relocate (· + shift))) (scanFrom offset cs) := by
  induction size : cs.length using Nat.strongRecOn generalizing offset cs with
  | ind _ ih =>
      rw [scanFrom_eq, scanFrom_eq offset]
      split
      · rfl
      · split
        · simp [SyntaxError.relocate, Nat.add_right_comm]
        · split
          · simp [SyntaxError.relocate, Nat.add_right_comm]
          next s found =>
            have shorter := Nat.lt_of_lt_of_le (Scan.length_lt_of_token? found)
              (Gap.length_leading_le cs)
            have here : ofScan (offset + shift) (Gap.leading cs).1 s =
                (ofScan offset (Gap.leading cs).1 s).relocate (· + shift) := by
              simp [ofScan, relocate, Nat.add_right_comm]
            rw [here, relocate_stop, ih _ (size ▸ shorter) _ _ rfl]
            exact map_relocateResult _ fun _ => rfl

theorem startsComment_followed (cs more : List Char) :
    startsComment (cs ++ ' ' :: more) = startsComment cs := by
  cases cs with
  | nil => rfl
  | cons c cs =>
      cases cs with
      | nil => simp [startsComment]
      | cons d cs => simp [startsComment]

theorem stop_ofScan_add (offset : Nat) {cs : List Char} {s : Scan}
    (h : Scan.token? (Gap.leading cs).2 = some s) :
    (ofScan offset (Gap.leading cs).1 s).stop + byteLength s.rest = offset + byteLength cs := by
  have gap := congrArg byteLength (Gap.leading_append cs)
  have token := congrArg byteLength (Scan.splits_of_token? h).1
  rw [byteLength_append] at gap token
  simp only [ofScan]
  omega

theorem scanFrom_of_token (offset : Nat) {cs gap rest : List Char} {s : Scan}
    (split : Gap.leading cs = (gap, rest)) (closed : startsComment rest = false)
    (found : Scan.token? rest = some s) :
    scanFrom offset cs =
      (scanFrom (ofScan offset gap s).stop s.rest).map (ofScan offset gap s :: ·) := by
  have visible : rest.isEmpty = false := by
    cases rest with
    | nil => cases found
    | cons c cs => rfl
  rw [scanFrom_eq, split]
  simp [visible, closed, found]

/-- The lexemes of two texts with a boundary between them. -/
theorem scanFrom_boundary (offset : Nat) {cs : List Char} {ls : List Lexeme}
    (h : scanFrom offset cs = .ok ls) (next : List Char) :
    scanFrom offset (cs ++ Gap.boundary next) =
      (scanFrom (offset + byteLength cs + 3) next).map fun more =>
        ls ++ semicolonAt (offset + byteLength cs + 2) :: more := by
  -- Along the text, a gap and a token at a time.
  induction size : cs.length using Nat.strongRecOn generalizing offset cs ls with
  | ind _ ih =>
      rcases exists_of_scanFrom h with ⟨ended, rfl⟩ | ⟨s, later, closed, found, read, rfl⟩
      · have gap := Gap.leading_boundary_of_gap next ended
        have here : ofScan offset (cs ++ [' ', '\n']) ⟨.punct ';', ";", [';'], next⟩ =
            semicolonAt (offset + byteLength cs + 2) := by
          rw [ofScan, byteLength_append]
          rfl
        rw [scanFrom_of_token offset gap rfl (Scan.token?_semicolon next), here]
        rfl
      · have visible : (Gap.leading cs).2 ≠ [] := by
          intro ended
          rw [ended] at found
          contradiction
        have gap := Gap.leading_boundary_of_token next visible closed
        have shorter := Nat.lt_of_lt_of_le (Scan.length_lt_of_token? found)
          (Gap.length_leading_le cs)
        have others := ih _ (size ▸ shorter) _ read rfl
        rw [stop_ofScan_add offset found] at others
        calc
          scanFrom offset (cs ++ Gap.boundary next)
          _ = (scanFrom (ofScan offset (Gap.leading cs).1 s).stop
                (s.rest ++ Gap.boundary next)).map
                (ofScan offset (Gap.leading cs).1 s :: ·) :=
              scanFrom_of_token offset gap ((startsComment_followed _ _).trans closed)
                (Scan.token?_followed rfl _ found)
          _ = _ := by
              rw [others]
              cases scanFrom (offset + byteLength cs + 3) next <;> rfl

end Lexeme

end TableShift
