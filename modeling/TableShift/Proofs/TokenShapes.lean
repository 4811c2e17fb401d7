import Mathlib.Data.List.TakeWhile
import TableShift.Sql.Lexeme.Lexer

/-! # What tokens and gaps look like

Every kind of token has a grammar of its own, and so has the text between two tokens.
They are stated here without the scanners: a name stands between back quotes, a string
between two quotes of one kind, a gap is made of blanks and of comments that end. What a
scanner takes has the shape of its token, and what is skipped has the shape of a gap.
-/

namespace TableShift

theorem stop_of_dropWhile {p : Char → Bool} {cs rest : List Char} {c : Char}
    (h : cs.dropWhile p = c :: rest) : p c = false := by
  have first := List.head?_dropWhile_not p cs
  rw [h] at first
  simpa using first

/-! ## Gaps -/

namespace Gap

/-- The texts before which a line ends. -/
inductive LineEnd : List Char → Prop where
  | text : LineEnd []
  | feed (rest : List Char) : LineEnd ('\n' :: rest)
  | returnFeed (rest : List Char) : LineEnd ('\r' :: '\n' :: rest)

/-- The texts that are a gap in front of `rest`: blanks, line comments up to the end of
    their lines and block comments up to their first close. -/
inductive Before (rest : List Char) : List Char → Prop where
  | nil : Before rest []
  | blank {c : Char} {cs : List Char} (space : c ∈ [' ', '\t', '\r', '\n'])
      (more : Before rest cs) : Before rest (c :: cs)
  | line {opener body cs : List Char} (opens : opener = ['-', '-'] ∨ opener = ['#'])
      (inside : ∀ c ∈ body, c ≠ '\r' ∧ c ≠ '\n') (ends : LineEnd (cs ++ rest))
      (more : Before rest cs) : Before rest (opener ++ (body ++ cs))
  | block {body cs : List Char} (open_ : ¬ ['*', '/'] <:+: body) (more : Before rest cs) :
      Before rest ('/' :: '*' :: (body ++ '*' :: '/' :: cs))

theorem Before.append_spaces {rest spaces cs : List Char}
    (h : ∀ c ∈ spaces, isSpace c = true) (more : Before rest cs) : Before rest (spaces ++ cs) := by
  induction spaces with
  | nil => exact more
  | cons c spaces ih =>
      rw [List.forall_mem_cons] at h
      refine .blank ?_ (ih h.2)
      simpa [isSpace, or_assoc] using h.1

theorem LineEnd.of_append {cs rest more : List Char} {c : Char}
    (h : LineEnd (cs ++ c :: (rest ++ more))) (inside : inLine c = true) :
    LineEnd (cs ++ c :: rest) := by
  simp only [inLine, Bool.and_eq_true, bne_iff_ne] at inside
  generalize whole : cs ++ c :: (rest ++ more) = text at h
  -- The character is neither of the two that end a line, so these stand before it.
  cases h with
  | text => simp at whole
  | feed =>
      obtain ⟨-, first⟩ | ⟨cs, rfl, -⟩ := List.append_eq_cons_iff.mp whole
      · exact absurd (List.cons.inj first).1 inside.2
      · exact .feed _
  | returnFeed =>
      obtain ⟨-, first⟩ | ⟨cs, rfl, later⟩ := List.append_eq_cons_iff.mp whole
      · exact absurd (List.cons.inj first).1 inside.1
      · obtain ⟨-, first⟩ | ⟨cs, rfl, -⟩ := List.append_eq_cons_iff.mp later.symm
        · exact absurd (List.cons.inj first).1 inside.2
        · exact .returnFeed _

/-- A gap in front of a character of a line does not look any further. -/
theorem Before.of_append {gap rest more : List Char} {c : Char}
    (h : Before (c :: (rest ++ more)) gap) (inside : inLine c = true) : Before (c :: rest) gap := by
  induction h with
  | nil => exact .nil
  | blank space _ ih => exact .blank space ih
  | line opens body ends _ ih => exact .line opens body (ends.of_append inside) ih
  | block open_ _ ih => exact .block open_ ih

theorem lineEnd_of_restOfLine? {cs line rest : List Char}
    (h : restOfLine? cs = some (line, rest)) :
    (∀ c ∈ line, c ≠ '\r' ∧ c ≠ '\n') ∧ LineEnd rest := by
  unfold restOfLine? at h
  split at h
  next ends =>
    simp only [Option.some.injEq, Prod.mk.injEq] at h
    obtain ⟨rfl, rfl⟩ := h
    constructor
    · intro c member
      simpa [inLine] using List.mem_takeWhile_imp member
    · cases left : cs.dropWhile inLine with
      | nil => exact .text
      | cons c rest =>
          have edge : c = '\r' ∨ c = '\n' := by
            have outside := stop_of_dropWhile left
            simpa [inLine, or_iff_not_imp_left] using outside
          rw [left] at ends
          rcases edge with rfl | rfl
          · obtain ⟨more, rfl⟩ := List.head?_eq_some_iff.mp (by simpa [endsLine] using ends)
            exact .returnFeed more
          · exact .feed rest
  next => contradiction

theorem exists_of_throughClose? {cs taken rest : List Char}
    (h : throughClose? cs = some (taken, rest)) :
    ∃ body, taken = body ++ ['*', '/'] ∧ ¬ ['*', '/'] <:+: body := by
  induction cs generalizing taken rest with
  | nil => simp [throughClose?] at h
  | cons c cs ih =>
      unfold throughClose? at h
      split at h
      next =>
        simp only [Option.some.injEq, Prod.mk.injEq] at h
        exact ⟨[], h.1.symm, by simp⟩
      next closes =>
        split at h
        next inner after found =>
          simp only [Option.some.injEq, Prod.mk.injEq] at h
          obtain ⟨rfl, rfl⟩ := h
          obtain ⟨body, rfl, open_⟩ := ih found
          refine ⟨c :: body, rfl, ?_⟩
          rw [List.infix_cons_iff]
          rintro (start | later)
          · obtain ⟨rfl, slash⟩ := List.cons_prefix_cons.mp start
            obtain ⟨more, rfl⟩ := slash
            apply closes
            simp [← append_of_throughClose? found]
          · exact open_ later
        next => contradiction

theorem before_of_piece? {cs piece rest gap after : List Char}
    (h : piece? cs = some (piece, rest)) (whole : gap ++ after = rest) (more : Before after gap) :
    Before after (piece ++ gap) := by
  unfold piece? at h
  split at h
  · split at h
    next line rest' found =>
      simp only [Option.some.injEq, Prod.mk.injEq] at h
      obtain ⟨rfl, rfl⟩ := h
      obtain ⟨inside, ends⟩ := lineEnd_of_restOfLine? found
      exact .line (.inl rfl) inside (whole ▸ ends) more
    next => contradiction
  · split at h
    next line rest' found =>
      simp only [Option.some.injEq, Prod.mk.injEq] at h
      obtain ⟨rfl, rfl⟩ := h
      obtain ⟨inside, ends⟩ := lineEnd_of_restOfLine? found
      exact .line (.inr rfl) inside (whole ▸ ends) more
    next => contradiction
  · split at h
    next taken rest' found =>
      simp only [Option.some.injEq, Prod.mk.injEq] at h
      obtain ⟨rfl, rfl⟩ := h
      obtain ⟨body, rfl, open_⟩ := exists_of_throughClose? found
      simpa using Before.block open_ more
    next => contradiction
  · split at h
    next space =>
      simp only [Option.some.injEq, Prod.mk.injEq] at h
      obtain ⟨rfl, rfl⟩ := h
      refine .append_spaces ?_ more
      rw [List.forall_mem_cons]
      exact ⟨space, fun c member => List.mem_takeWhile_imp member⟩
    next => contradiction
  · contradiction

theorem before_leading (cs : List Char) : Before (leading cs).2 (leading cs).1 := by
  fun_induction leading cs with
  | case1 cs piece rest found _ gap after split ih =>
      rw [split] at ih
      have whole := leading_append rest
      rw [split] at whole
      exact before_of_piece? found whole ih
  | case2 => exact .nil

end Gap

/-! ## Tokens -/

/-- Whether characters are a numeral: an optional minus sign, digits, and an optional
    point with any number of digits. -/
def IsNumeral (cs : List Char) : Prop :=
  ∃ minus whole point : List Char, cs = minus ++ (whole ++ point) ∧
    (minus = [] ∨ minus = ['-']) ∧ whole ≠ [] ∧ (∀ c ∈ whole, c.isDigit = true) ∧
    (point = [] ∨ ∃ digits, point = '.' :: digits ∧ ∀ c ∈ digits, c.isDigit = true)

namespace Scan

/-- What stands between two quotes, and the text it means. -/
inductive Decodes (quote : Char) : List Char → List Char → Prop where
  | nil : Decodes quote [] []
  /-- A backslash and a character. -/
  | escaped (d : Char) {body text : List Char} (more : Decodes quote body text) :
      Decodes quote ('\\' :: d :: body) (unescape d :: text)
  /-- The quote itself, twice. -/
  | doubled {body text : List Char} (more : Decodes quote body text) :
      Decodes quote (quote :: quote :: body) (quote :: text)
  | plain {c : Char} {body text : List Char} (unescaped : c ≠ '\\') (inside : c ≠ quote)
      (more : Decodes quote body text) : Decodes quote (c :: body) (c :: text)

/-- A text between two quotes of one kind, and what it means. -/
inductive Quotes : List Char → List Char → Prop where
  | intro {quote : Char} {body text : List Char} (kind : quote = '\'' ∨ quote = '"')
      (decodes : Decodes quote body text) : Quotes (quote :: (body ++ [quote])) text

/-- The characters of a token, and the spelling that is kept with it. -/
inductive Reads : List Char → Token → String → Prop where
  | name {cs : List Char} (plain : backQuote ∉ cs) :
      Reads (backQuote :: (cs ++ [backQuote])) (.identifier (.ofList cs)) (.ofList cs)
  | string {slice text : List Char} (quoted : Quotes slice text) :
      Reads slice (.literal (.string (.ofList text))) (.ofList text)
  | radix {letter : Char} {radix : Nat} {slice text : List Char}
      (announced : radixOf? letter = some radix) (quoted : Quotes slice text) :
      Reads (letter :: slice) (.literal (radixValue radix text)) (.ofList (letter :: slice))
  | number {cs : List Char} (numeral : IsNumeral cs) :
      Reads cs (.literal (.number (.ofList cs))) (.ofList cs)
  | word {cs : List Char} (nonempty : cs ≠ []) (letters : ∀ c ∈ cs, isWordChar c = true) :
      Reads cs (wordToken (.ofList cs)) (.ofList cs)
  | mark {c : Char} (listed : c ∈ marks) : Reads [c] (.punct c) (.singleton c)

theorem Reads.ne_nil {slice : List Char} {token : Token} {raw : String}
    (h : Reads slice token raw) : slice ≠ [] := by
  cases h with
  | name | radix | mark => exact List.cons_ne_nil _ _
  | string quoted =>
      cases quoted
      exact List.cons_ne_nil _ _
  | number numeral =>
      obtain ⟨minus, whole, point, rfl, _, nonempty, _⟩ := numeral
      simp [nonempty]
  | word nonempty => exact nonempty

theorem decodes_of_quotedBody? {quote : Char} {cs : List Char} {q : Quoted}
    (h : quotedBody? quote cs = some q) :
    ∃ body, q.taken = body ++ [quote] ∧ Decodes quote body q.text := by
  fun_induction quotedBody? quote cs generalizing q with
  | case1 | case2 | case4 => contradiction
  | case3 =>
      cases h
      exact ⟨[], rfl, .nil⟩
  | case5 d cs ih =>
      obtain ⟨inner, found, rfl⟩ := Option.map_eq_some_iff.mp h
      obtain ⟨body, taken, decodes⟩ := ih found
      exact ⟨'\\' :: d :: body, by simp [Quoted.cons, taken], .escaped d decodes⟩
  | case6 cs _ ih =>
      obtain ⟨inner, found, rfl⟩ := Option.map_eq_some_iff.mp h
      obtain ⟨body, taken, decodes⟩ := ih found
      exact ⟨quote :: quote :: body, by simp [Quoted.cons, taken], .doubled decodes⟩
  | case7 =>
      cases h
      exact ⟨[], rfl, .nil⟩
  | case8 c d cs unescaped inside ih =>
      obtain ⟨inner, found, rfl⟩ := Option.map_eq_some_iff.mp h
      obtain ⟨body, taken, decodes⟩ := ih found
      exact ⟨c :: body, by simp [Quoted.cons, taken], .plain unescaped inside decodes⟩

theorem quotes_of_quoted {cs : List Char} {q : Quoted} (h : quoted cs = .found q) :
    Quotes q.taken q.text := by
  unfold quoted at h
  split at h
  · contradiction
  · split at h
    next kind =>
      split at h
      next found =>
        cases h
        obtain ⟨body, taken, decodes⟩ := decodes_of_quotedBody? found
        rw [taken]
        exact .intro kind decodes
      next => contradiction
    next => contradiction

theorem reads_of_backQuoted? {cs : List Char} {s : Scan} (h : backQuoted? cs = some s) :
    Reads s.taken s.token s.raw := by
  unfold backQuoted? at h
  split at h
  · contradiction
  · split at h
    next opened =>
      split at h
      next => contradiction
      next close rest closing =>
        cases h
        have closed : close = backQuote := by simpa using stop_of_dropWhile closing
        rw [opened, closed]
        refine .name ?_
        intro member
        simpa using List.mem_takeWhile_imp member
    next => contradiction

theorem sign_cases (cs : List Char) : (sign cs).1 = [] ∨ (sign cs).1 = ['-'] := by
  unfold sign
  split
  · exact .inr rfl
  · exact .inl rfl

theorem fraction_cases (cs : List Char) :
    (fraction cs).1 = [] ∨
      ∃ digits, (fraction cs).1 = '.' :: digits ∧ ∀ c ∈ digits, c.isDigit = true := by
  unfold fraction
  split
  · exact .inr ⟨_, rfl, fun c member => List.mem_takeWhile_imp member⟩
  · exact .inl rfl

theorem reads_of_number? {cs : List Char} {s : Scan} (h : number? cs = some s) :
    Reads s.taken s.token s.raw := by
  simp only [number?] at h
  split at h
  · contradiction
  next listed =>
    cases h
    refine .number ⟨_, _, _, List.append_assoc _ _ _, sign_cases cs, ?_, ?_, fraction_cases _⟩
    · intro none
      simp [none] at listed
    · intro c member
      exact List.mem_takeWhile_imp member

theorem reads_of_word? {cs : List Char} {s : Scan} (h : word? cs = some s) :
    Reads s.taken s.token s.raw := by
  simp only [word?] at h
  split at h
  · contradiction
  next nonempty =>
    rw [Option.some.injEq] at h
    subst h
    dsimp only
    refine .word (by simpa using nonempty) ?_
    intro c member
    exact List.mem_takeWhile_imp member

theorem reads_of_mark? {cs : List Char} {s : Scan} (h : mark? cs = some s) :
    Reads s.taken s.token s.raw := by
  unfold mark? at h
  split at h
  · contradiction
  · split at h
    next listed =>
      cases h
      exact .mark (List.contains_iff_mem.mp listed)
    next => contradiction

/-- What a scanner takes has the shape of the token it finds. -/
theorem reads_of_token? {cs : List Char} {s : Scan} (h : token? cs = some s) :
    Reads s.taken s.token s.raw := by
  rcases shape_of_token? h with name | text | digits | number | word | mark
  · exact reads_of_backQuoted? name
  · unfold stringLiteral at text
    split at text
    next found =>
      cases text
      exact .string (quotes_of_quoted found)
    next => contradiction
    next => contradiction
  · unfold radixLiteral at digits
    split at digits
    · contradiction
    · split at digits
      next => contradiction
      next announced =>
        split at digits
        next found =>
          cases digits
          exact .radix announced (quotes_of_quoted found)
        next => contradiction
        next => contradiction
  · exact reads_of_number? number
  · exact reads_of_word? word
  · exact reads_of_mark? mark

end Scan

end TableShift
