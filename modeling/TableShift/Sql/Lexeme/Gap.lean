/-! # Gaps between lexemes

Blanks and comments separate lexemes and mean nothing. A gap is read piece by
piece, and every piece comes with the text that follows it.
-/

namespace TableShift.Gap

/-- Whether a character is one of the four blanks of a script. -/
def isSpace (c : Char) : Bool :=
  c == ' ' || c == '\t' || c == '\r' || c == '\n'

/-- Whether a character can stand inside a line comment. -/
def inLine (c : Char) : Bool :=
  c != '\r' && c != '\n'

/-- Whether a line can end before a text: at a line feed, at a carriage return with a
    line feed, or with the text; a carriage return alone ends none. -/
def endsLine : List Char → Bool
  | '\r' :: rest => rest.head? == some '\n'
  | _ => true

/-- Splits off the rest of a line. -/
def restOfLine? (cs : List Char) : Option (List Char × List Char) :=
  if endsLine (cs.dropWhile inLine) then some (cs.takeWhile inLine, cs.dropWhile inLine)
  else none

/-- Splits off the text up to and with the first end of a block comment. -/
def throughClose? : List Char → Option (List Char × List Char)
  | [] => none
  | c :: cs =>
    if c = '*' ∧ cs.head? = some '/' then some (['*', '/'], cs.tail)
    else
      match throughClose? cs with
      | some (body, rest) => some (c :: body, rest)
      | none => none

/-- The run of blanks or the comment at the head of a text, and what follows. -/
def piece? : List Char → Option (List Char × List Char)
  | '-' :: '-' :: cs =>
    match restOfLine? cs with
    | some (line, rest) => some ('-' :: '-' :: line, rest)
    | none => none
  | '#' :: cs =>
    match restOfLine? cs with
    | some (line, rest) => some ('#' :: line, rest)
    | none => none
  | '/' :: '*' :: cs =>
    match throughClose? cs with
    | some (body, rest) => some ('/' :: '*' :: body, rest)
    | none => none
  | c :: cs => if isSpace c then some (c :: cs.takeWhile isSpace, cs.dropWhile isSpace) else none
  | [] => none

theorem append_of_restOfLine? {cs line rest : List Char}
    (h : restOfLine? cs = some (line, rest)) : line ++ rest = cs := by
  unfold restOfLine? at h
  split at h
  · simp only [Option.some.injEq, Prod.mk.injEq] at h
    rw [← h.1, ← h.2, List.takeWhile_append_dropWhile]
  · simp at h

theorem append_of_throughClose? {cs body rest : List Char}
    (h : throughClose? cs = some (body, rest)) : body ++ rest = cs := by
  induction cs generalizing body rest with
  | nil => simp [throughClose?] at h
  | cons c cs ih =>
    unfold throughClose? at h
    split at h
    · rename_i hc
      obtain ⟨rfl, hslash⟩ := hc
      simp only [Option.some.injEq, Prod.mk.injEq] at h
      cases cs with
      | nil => simp at hslash
      | cons d ds =>
        simp only [List.head?_cons, Option.some.injEq] at hslash
        simp [← h.1, ← h.2, hslash]
    · split at h
      · rename_i found
        simp only [Option.some.injEq, Prod.mk.injEq] at h
        rw [← h.1, ← h.2, List.cons_append, ih found]
      · simp at h

/-- A piece and what follows it make up the text. -/
theorem append_of_piece? {cs piece rest : List Char}
    (h : piece? cs = some (piece, rest)) : piece ++ rest = cs := by
  unfold piece? at h
  split at h
  · split at h
    · rename_i found
      simp only [Option.some.injEq, Prod.mk.injEq] at h
      rw [← h.1, ← h.2, List.cons_append, List.cons_append, append_of_restOfLine? found]
    · simp at h
  · split at h
    · rename_i found
      simp only [Option.some.injEq, Prod.mk.injEq] at h
      rw [← h.1, ← h.2, List.cons_append, append_of_restOfLine? found]
    · simp at h
  · split at h
    · rename_i found
      simp only [Option.some.injEq, Prod.mk.injEq] at h
      rw [← h.1, ← h.2, List.cons_append, List.cons_append, append_of_throughClose? found]
    · simp at h
  · split at h
    · simp only [Option.some.injEq, Prod.mk.injEq] at h
      rw [← h.1, ← h.2, List.cons_append, List.takeWhile_append_dropWhile]
    · simp at h
  · simp at h

/-- No piece is empty. -/
theorem ne_nil_of_piece? {cs piece rest : List Char}
    (h : piece? cs = some (piece, rest)) : piece ≠ [] := by
  unfold piece? at h
  split at h
  · split at h <;> simp at h
    simp [← h.1]
  · split at h <;> simp at h
    simp [← h.1]
  · split at h <;> simp at h
    simp [← h.1]
  · split at h <;> simp at h
    simp [← h.1]
  · simp at h

theorem length_lt_of_piece? {cs piece rest : List Char}
    (h : piece? cs = some (piece, rest)) : rest.length < cs.length := by
  have happ := congrArg List.length (append_of_piece? h)
  have hpos := List.length_pos_iff.mpr (ne_nil_of_piece? h)
  rw [List.length_append] at happ
  omega

/-- The longest gap at the head of a text, and what follows it. -/
def leading (cs : List Char) : List Char × List Char :=
  match h : piece? cs with
  | some (piece, rest) =>
    have : rest.length < cs.length := length_lt_of_piece? h
    let (gap, after) := leading rest
    (piece ++ gap, after)
  | none => ([], cs)
termination_by cs.length

/-- A gap and what follows it make up the text. -/
theorem leading_append (cs : List Char) : (leading cs).1 ++ (leading cs).2 = cs := by
  fun_induction leading cs with
  | case1 cs piece rest found _ gap after heq ih =>
    rw [heq] at ih
    rw [← append_of_piece? found, List.append_assoc, ih]
  | case2 => rfl

theorem length_leading_le (cs : List Char) : (leading cs).2.length ≤ cs.length := by
  have h := congrArg List.length (leading_append cs)
  rw [List.length_append] at h
  omega

end TableShift.Gap
