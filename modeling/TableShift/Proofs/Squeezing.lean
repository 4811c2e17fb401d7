import Mathlib.Data.List.Infix
import TableShift.Proofs.Isolation
import TableShift.Proofs.Tiling

/-! # Gaps mean nothing

Between two lexemes it matters whether there is a gap, but not what it is made of. A script
is squeezed by putting one blank in the place of every gap between two of its lexemes, the
words of a compound keyword included. The lexemes of the squeezed script are those of the
script, with other positions, and so are its statements and what is complained about.
-/

namespace TableShift

/-! ## Tokens before a gap -/

namespace Scan

section Unclosed

variable {cs : List Char}

theorem backQuoted?_unclosed {e : Char} {more : List Char} {s : Scan}
    (h : backQuoted? cs = none) (found : backQuoted? (cs ++ e :: more) = some s) :
    s.rest.length ≤ more.length := by
  cases cs with
  | nil =>
      have split := congrArg List.length (splits_of_backQuoted? found).1
      have taken := List.length_pos_iff.mpr (splits_of_backQuoted? found).2
      simp only [List.nil_append, List.length_append, List.length_cons] at split
      omega
  | cons c cs =>
      by_cases opened : c = backQuote
      · have open_ : cs.dropWhile (· != backQuote) = [] := by
          cases closing : cs.dropWhile (· != backQuote) with
          | nil => rfl
          | cons close rest => simp [backQuoted?, opened, closing] at h
        have inside := List.dropWhile_eq_nil_iff.mp open_
        simp only [List.cons_append, backQuoted?, opened, if_true,
          List.dropWhile_append_of_pos inside] at found
        split at found
        · contradiction
        next close rest closing =>
          cases found
          have shorter := (List.dropWhile_suffix (p := (· != backQuote)) (l := e :: more)).length_le
          rw [closing] at shorter
          simpa using shorter
      · simp [backQuoted?, opened] at found

theorem length_lt_of_quotedBody? {quote : Char} {q : Quoted} (h : quotedBody? quote cs = some q) :
    q.rest.length < cs.length := by
  obtain ⟨body, taken, -⟩ := decodes_of_quotedBody? h
  have split := congrArg List.length (append_of_quotedBody? h)
  simp only [taken, List.length_append, List.length_cons] at split
  omega

theorem quotedBody?_unclosed {e quote : Char} {more : List Char} {q : Quoted}
    (h : quotedBody? quote cs = none)
    (found : quotedBody? quote (cs ++ e :: more) = some q) : q.rest.length ≤ more.length := by
  fun_induction quotedBody? quote cs generalizing q with
  | case1 => exact Nat.le_of_lt_succ (length_lt_of_quotedBody? found)
  | case2 =>
      obtain ⟨inner, read, rfl⟩ := Option.map_eq_some_iff.mp (by simpa [quotedBody?] using found)
      exact (length_lt_of_quotedBody? read).le
  | case3 | case7 => contradiction
  | case4 c unescaped open_ =>
      simp only [List.cons_append, List.nil_append, quotedBody?, if_neg unescaped,
        if_neg open_] at found
      obtain ⟨inner, read, rfl⟩ := Option.map_eq_some_iff.mp found
      exact Nat.le_of_lt_succ (length_lt_of_quotedBody? read)
  | case5 d cs ih =>
      simp only [List.cons_append, quotedBody?, if_true] at found
      obtain ⟨inner, read, rfl⟩ := Option.map_eq_some_iff.mp found
      have shorter := ih (Option.map_eq_none_iff.mp h) read
      exact shorter
  | case6 cs unescaped ih =>
      simp only [List.cons_append, quotedBody?, if_neg unescaped, if_true] at found
      obtain ⟨inner, read, rfl⟩ := Option.map_eq_some_iff.mp found
      have shorter := ih (Option.map_eq_none_iff.mp h) read
      exact shorter
  | case8 c d cs unescaped open_ ih =>
      simp only [List.cons_append, quotedBody?, if_neg unescaped, if_neg open_] at found
      obtain ⟨inner, read, rfl⟩ := Option.map_eq_some_iff.mp found
      have shorter := ih (Option.map_eq_none_iff.mp h) read
      exact shorter

theorem quoted_unclosed (e : Char) (more : List Char) (h : quoted cs = .broken) :
    quoted (cs ++ e :: more) = .broken ∨
      ∃ q, quoted (cs ++ e :: more) = .found q ∧ q.rest.length ≤ more.length := by
  cases cs with
  | nil => contradiction
  | cons c cs =>
      by_cases opened : c = '\'' ∨ c = '"'
      · have open_ : quotedBody? c cs = none := by
          cases body : quotedBody? c cs with
          | none => rfl
          | some q => simp [quoted, opened, body] at h
        simp only [List.cons_append, quoted, if_pos opened]
        cases body : quotedBody? c (cs ++ e :: more) with
        | none => exact .inl rfl
        | some q =>
            have shorter := quotedBody?_unclosed open_ body
            exact .inr ⟨_, rfl, shorter⟩
      · simp [quoted, opened] at h

theorem stringLiteral_unclosed (e : Char) (more : List Char) (h : stringLiteral cs = .broken) :
    stringLiteral (cs ++ e :: more) = .broken ∨
      ∃ s, stringLiteral (cs ++ e :: more) = .found s ∧ s.rest.length ≤ more.length := by
  have broken : quoted cs = .broken := by
    cases text : quoted cs <;> simp_all [stringLiteral]
  rcases quoted_unclosed e more broken with text | ⟨q, text, rest⟩
  · exact .inl (by rw [stringLiteral, text])
  · exact .inr ⟨_, by rw [stringLiteral, text], rest⟩

theorem radixLiteral_unclosed (e : Char) (more : List Char) (h : radixLiteral cs = .broken) :
    radixLiteral (cs ++ e :: more) = .broken ∨
      ∃ s, radixLiteral (cs ++ e :: more) = .found s ∧ s.rest.length ≤ more.length := by
  cases cs with
  | nil => contradiction
  | cons c cs =>
      cases announced : radixOf? c with
      | none => simp [radixLiteral, announced] at h
      | some radix =>
          have broken : quoted cs = .broken := by
            cases text : quoted cs <;> simp_all [radixLiteral]
          simp only [List.cons_append, radixLiteral, announced]
          rcases quoted_unclosed e more broken with text | ⟨q, text, rest⟩
          · exact .inl (by rw [text])
          · exact .inr ⟨_, by rw [text], rest⟩

/-- Where there is no token, one that begins there when more text follows ends in that text. -/
theorem token?_unclosed {e : Char} (ends : isBreak e = true) {more : List Char} {s : Scan}
    (h : token? cs = none) (found : token? (cs ++ e :: more) = some s) :
    s.rest.length ≤ more.length := by
  by_cases nonempty : cs = []
  · subst nonempty
    exact Nat.le_of_lt_succ (length_lt_of_token? found)
  rw [token?] at h found
  cases named : backQuoted? cs with
  | some t => simp [named] at h
  | none =>
      cases closed : backQuoted? (cs ++ e :: more) with
      | some t =>
          rw [closed] at found
          cases found
          exact backQuoted?_unclosed named closed
      | none =>
          simp only [named, closed] at h found
          cases text : stringLiteral cs with
          | found t => simp [text] at h
          | broken =>
              rcases stringLiteral_unclosed e more text with still | ⟨t, read, rest⟩
              · simp [still] at found
              · simp only [read, Option.some.injEq] at found
                exact found ▸ rest
          | absent =>
              have unbroken : stringLiteral cs ≠ .broken := by simp [text]
              have longer := stringLiteral_followed more ends unbroken
              simp only [text, longer, Attempt.map] at h found
              cases digits : radixLiteral cs with
              | found t => simp [digits] at h
              | broken =>
                  rcases radixLiteral_unclosed e more digits with still | ⟨t, read, rest⟩
                  · simp [still] at found
                  · simp only [read, Option.some.injEq] at found
                    exact found ▸ rest
              | absent =>
                  have longer := radixLiteral_followed more ends nonempty (by simp [digits])
                  simp only [digits, longer, Attempt.map, number?_followed more ends nonempty,
                    word?_followed more ends, mark?_followed _ nonempty, ← Option.map_or] at h found
                  simp [h] at found

theorem token?_cut {e : Char} (ends : isBreak e = true) {left more : List Char} {s : Scan}
    (h : token? (cs ++ e :: more) = some s) (rest : s.rest = left ++ e :: more) :
    token? cs = some { s with rest := left } := by
  cases alone : token? cs with
  | none =>
      have reaches := token?_unclosed ends alone h
      rw [rest] at reaches
      simp only [List.length_append, List.length_cons] at reaches
      omega
  | some t =>
      have longer := (token?_followed ends more alone).symm.trans h
      rw [Option.some.injEq] at longer
      subst longer
      simp only [followedBy, List.append_left_inj] at rest
      simp [followedBy, ← rest]

end Unclosed

end Scan

/-! ## Where gaps are -/

namespace Gap

/-- Whether a gap begins at the head of a text. -/
def opens : List Char → Bool
  | [] => false
  | c :: cs =>
    isSpace c || c == '#' || (c == '-' && cs.head? == some '-') ||
      (c == '/' && cs.head? == some '*')

theorem opens_cons_eq_false {c : Char} {cs : List Char} :
    opens (c :: cs) = false ↔
      isSpace c = false ∧ c ≠ '#' ∧ ¬ (c = '-' ∧ cs.head? = some '-') ∧
        ¬ (c = '/' ∧ cs.head? = some '*') := by
  simp [opens, and_assoc]

theorem piece?_of_closed {cs : List Char} (h : opens cs = false) : piece? cs = none := by
  cases cs with
  | nil => rfl
  | cons c cs =>
      obtain ⟨noSpace, noHash, noDash, noStar⟩ := opens_cons_eq_false.mp h
      rw [piece?_blanks noDash noHash noStar, noSpace]
      rfl

theorem leading_of_closed {cs : List Char} (h : opens cs = false) : leading cs = ([], cs) :=
  leading_of_piece?_none (piece?_of_closed h)

theorem startsComment_of_closed {cs : List Char} (h : opens cs = false) :
    Lexeme.startsComment cs = false := by
  cases cs with
  | nil => rfl
  | cons c cs =>
      obtain ⟨-, -, -, noStar⟩ := opens_cons_eq_false.mp h
      cases cs with
      | nil => simp [Lexeme.startsComment]
      | cons d cs => simpa [Lexeme.startsComment] using noStar

theorem isBreak_of_opens {c : Char} {cs : List Char} (h : opens (c :: cs) = true) :
    Scan.isBreak c = true := by
  have listed : c ∈ [' ', '\t', '\r', '\n', '#', '-', '/'] := by
    simp only [opens, isSpace, Bool.or_eq_true, Bool.and_eq_true, beq_iff_eq] at h
    simp only [List.mem_cons]
    tauto
  have breaks : [' ', '\t', '\r', '\n', '#', '-', '/'].all Scan.isBreak = true := by decide
  exact List.all_eq_true.mp breaks c listed

theorem inLine_of_closed {c : Char} {cs : List Char} (h : opens (c :: cs) = false) :
    inLine c = true := by
  have noSpace := (opens_cons_eq_false.mp h).1
  simp only [inLine, Bool.and_eq_true, bne_iff_ne]
  constructor <;> rintro rfl <;> contradiction

/-- Behind a character that begins no gap, one gap is as good as another. -/
theorem opens_append_blank {front rest : List Char} (nonempty : front ≠ [])
    (h : opens (front ++ rest) = false) (more : List Char) :
    opens (front ++ ' ' :: more) = false := by
  obtain ⟨c, front, rfl⟩ := List.exists_cons_of_ne_nil nonempty
  cases front with
  | nil =>
      obtain ⟨noSpace, noHash, -, -⟩ := opens_cons_eq_false.mp h
      exact opens_cons_eq_false.mpr ⟨noSpace, noHash, by simp, by simp⟩
  | cons d front => exact h

/-! ### Line ends -/

/-- Whether a line feed stands right behind every carriage return of a text. -/
def ReturnsFeed (cs : List Char) : Prop :=
  ∀ rest, '\r' :: rest <:+ cs → rest.head? = some '\n'

instance (cs : List Char) : Decidable (ReturnsFeed cs) :=
  decidable_of_iff (∀ text ∈ cs.tails, text.head? = some '\r' → text.tail.head? = some '\n') <| by
    simp only [List.mem_tails]
    constructor
    · intro h rest suffix
      exact h ('\r' :: rest) suffix rfl
    · intro h text suffix first
      obtain ⟨rest, rfl⟩ := List.head?_eq_some_iff.mp first
      exact h rest suffix

theorem ReturnsFeed.of_suffix {cs rest : List Char} (h : ReturnsFeed cs) (later : rest <:+ cs) :
    ReturnsFeed rest :=
  fun more suffix => h more (suffix.trans later)

theorem ReturnsFeed.restOfLine? {cs : List Char} (h : ReturnsFeed cs) :
    restOfLine? cs = some (cs.takeWhile inLine, cs.dropWhile inLine) := by
  have ends : endsLine (cs.dropWhile inLine) = true := by
    cases rest : cs.dropWhile inLine with
    | nil => rfl
    | cons c more =>
        by_cases returns : c = '\r'
        · subst returns
          have feeds := h more (rest ▸ List.dropWhile_suffix inLine)
          simp [endsLine, feeds]
        · simp [endsLine, returns]
  rw [Gap.restOfLine?, if_pos ends]

/-- Where lines end, a text with no piece of a gap at its head has no gap there. -/
theorem ReturnsFeed.closed {cs : List Char} (h : ReturnsFeed cs) (absent : piece? cs = none)
    (commented : Lexeme.startsComment cs = false) : opens cs = false := by
  cases cs with
  | nil => rfl
  | cons c cs =>
      have noDash : ¬ (c = '-' ∧ cs.head? = some '-') := by
        rintro ⟨rfl, second⟩
        obtain ⟨cs, rfl⟩ := List.head?_eq_some_iff.mp second
        have feeds : ReturnsFeed cs := h.of_suffix ⟨['-', '-'], rfl⟩
        simp [piece?, feeds.restOfLine?] at absent
      have noHash : c ≠ '#' := by
        rintro rfl
        have feeds : ReturnsFeed cs := h.of_suffix ⟨['#'], rfl⟩
        simp [piece?, feeds.restOfLine?] at absent
      have noStar : ¬ (c = '/' ∧ cs.head? = some '*') := by
        rintro ⟨rfl, second⟩
        obtain ⟨cs, rfl⟩ := List.head?_eq_some_iff.mp second
        simp [Lexeme.startsComment] at commented
      rw [piece?_blanks noDash noHash noStar] at absent
      have noSpace : isSpace c = false := by simpa using absent
      exact opens_cons_eq_false.mpr ⟨noSpace, noHash, noDash, noStar⟩

theorem piece?_leading (cs : List Char) : piece? (leading cs).2 = none := by
  fun_induction leading cs with
  | case1 cs piece rest found _ gap after split ih =>
      rw [split] at ih
      exact ih
  | case2 cs absent => exact absent

theorem leading_suffix (cs : List Char) : (leading cs).2 <:+ cs :=
  ⟨(leading cs).1, leading_append cs⟩

theorem opens_of_leading {cs : List Char} (h : (leading cs).1 ≠ []) : opens cs = true := by
  by_contra closed
  rw [leading_of_closed (by simpa using closed)] at h
  contradiction

/-! ### What is skipped -/

theorem leading_cons_space {c : Char} (space : isSpace c = true) (cs : List Char) :
    leading (c :: cs) = (c :: (leading cs).1, (leading cs).2) := by
  have blanks {d : Char} (space : isSpace d = true) (ds : List Char) :
      leading (d :: ds) = (d :: ds.takeWhile isSpace ++ (leading (ds.dropWhile isSpace)).1,
        (leading (ds.dropWhile isSpace)).2) := by
    refine leading_of_piece? ?_
    have plain : d ≠ '-' ∧ d ≠ '#' ∧ d ≠ '/' := by
      refine ⟨?_, ?_, ?_⟩ <;> rintro rfl <;> contradiction
    rw [piece?_blanks (by simp [plain]) plain.2.1 (by simp [plain]), if_pos space]
  rw [blanks space]
  cases cs with
  | nil => rfl
  | cons d ds =>
      cases again : isSpace d with
      | true => rw [blanks again]; simp [again]
      | false => simp [again]

theorem restOfLine?_of_lineEnd {body rest : List Char} (inside : ∀ c ∈ body, c ≠ '\r' ∧ c ≠ '\n')
    (ends : LineEnd rest) : restOfLine? (body ++ rest) = some (body, rest) := by
  have line : ∀ c ∈ body, inLine c = true := by simpa [inLine] using inside
  rw [restOfLine?, List.takeWhile_append_of_pos line, List.dropWhile_append_of_pos line]
  cases ends <;> simp [inLine, endsLine]

theorem throughClose?_append {body : List Char} (open_ : ¬ ['*', '/'] <:+: body)
    (rest : List Char) :
    throughClose? (body ++ '*' :: '/' :: rest) = some (body ++ ['*', '/'], rest) := by
  induction body with
  | nil => simp [throughClose?]
  | cons c body ih =>
      rw [List.infix_cons_iff, not_or] at open_
      have unclosed : ¬ (c = '*' ∧ (body ++ '*' :: '/' :: rest).head? = some '/') := by
        rintro ⟨rfl, slash⟩
        cases body with
        | nil => simp at slash
        | cons d body =>
            simp only [List.cons_append, List.head?_cons, Option.some.injEq] at slash
            exact open_.1 (slash ▸ ⟨body, rfl⟩)
      simp only [List.cons_append, throughClose?, if_neg unclosed, ih open_.2]

theorem leading_of_before {gap rest : List Char} (h : Before rest gap)
    (closed : opens rest = false) : leading (gap ++ rest) = (gap, rest) := by
  induction h with
  | nil => exact leading_of_closed closed
  | @blank c cs space _ ih =>
      have space : isSpace c = true := by simpa [isSpace, or_assoc] using space
      rw [List.cons_append, leading_cons_space space, ih]
  | @line opener body cs opens inside ends _ ih =>
      have line := restOfLine?_of_lineEnd inside ends
      have piece : piece? (opener ++ (body ++ (cs ++ rest))) =
          some (opener ++ body, cs ++ rest) := by
        rcases opens with rfl | rfl
        · simp [piece?, line]
        · simp [piece?, line]
      rw [List.append_assoc, List.append_assoc, leading_of_piece? piece, ih, List.append_assoc]
  | @block body cs open_ _ ih =>
      have piece : piece? ('/' :: '*' :: (body ++ '*' :: '/' :: (cs ++ rest))) =
          some ('/' :: '*' :: (body ++ ['*', '/']), cs ++ rest) := by
        simp only [piece?, throughClose?_append open_]
      have text : '/' :: '*' :: (body ++ '*' :: '/' :: cs) ++ rest =
          '/' :: '*' :: (body ++ '*' :: '/' :: (cs ++ rest)) := by simp
      rw [text, leading_of_piece? piece, ih]
      simp

theorem LineEnd.append {cs : List Char} (h : LineEnd cs) (nonempty : cs ≠ []) (more : List Char) :
    LineEnd (cs ++ more) := by
  cases h with
  | text => contradiction
  | feed rest => exact .feed _
  | returnFeed rest => exact .returnFeed _

theorem Before.append {gap rest : List Char} (h : Before rest gap) (nonempty : rest ≠ [])
    (more : List Char) : Before (rest ++ more) gap := by
  induction h with
  | nil => exact .nil
  | blank space _ ih => exact .blank space ih
  | line opens inside ends _ ih =>
      refine .line opens inside ?_ ih
      rw [← List.append_assoc]
      exact ends.append (by simp [nonempty]) more
  | block open_ _ ih => exact .block open_ ih

/-- What a gap is squeezed to. -/
def squeezed (gap : List Char) : List Char :=
  if gap.isEmpty then [] else [' ']

/-- What becomes of the gaps before the first and behind the last lexeme, which stay as they
    are unless these outer gaps are squeezed, too. -/
def margin (outer : Bool) (gap : List Char) : List Char :=
  if outer then squeezed gap else gap

theorem squeezed_cases (gap : List Char) :
    gap = [] ∧ squeezed gap = [] ∨ gap ≠ [] ∧ squeezed gap = [' '] := by
  cases gap with
  | nil => exact .inl ⟨rfl, rfl⟩
  | cons c gap => exact .inr ⟨List.cons_ne_nil _ _, rfl⟩

theorem margin_cases (outer : Bool) (gap : List Char) :
    margin outer gap = gap ∨ gap ≠ [] ∧ margin outer gap = [' '] := by
  cases outer with
  | false => exact .inl rfl
  | true =>
      rcases squeezed_cases gap with ⟨rfl, -⟩ | wide
      · exact .inl rfl
      · exact .inr wide

theorem leading_squeezed (gap : List Char) {rest : List Char} (closed : opens rest = false) :
    leading (squeezed gap ++ rest) = (squeezed gap, rest) := by
  rcases squeezed_cases gap with ⟨-, none⟩ | ⟨-, blank⟩
  · rw [none]
    exact leading_of_closed closed
  · rw [blank, List.singleton_append, leading_cons_space rfl, leading_of_closed closed]

theorem leading_margin (outer : Bool) {gap rest : List Char} (h : Before rest gap)
    (closed : opens rest = false) :
    leading (margin outer gap ++ rest) = (margin outer gap, rest) := by
  cases outer with
  | false => exact leading_of_before h closed
  | true => exact leading_squeezed gap closed

end Gap

/-! ## Squeezing -/

namespace Lexeme

/-- A text behind a lexeme, with one blank in the place of every gap before a lexeme. -/
def squeezeBehind (outer : Bool) (cs : List Char) : List Char :=
  match _h : Scan.token? (Gap.leading cs).2 with
  | none => Gap.margin outer (Gap.leading cs).1 ++ (Gap.leading cs).2
  | some s => Gap.squeezed (Gap.leading cs).1 ++ (s.taken ++ squeezeBehind outer s.rest)
termination_by cs.length
decreasing_by
  exact Nat.lt_of_lt_of_le (Scan.length_lt_of_token? _h) (Gap.length_leading_le cs)

theorem squeezeBehind_of_none (outer : Bool) {cs : List Char}
    (h : Scan.token? (Gap.leading cs).2 = none) :
    squeezeBehind outer cs = Gap.margin outer (Gap.leading cs).1 ++ (Gap.leading cs).2 := by
  rw [squeezeBehind]
  split
  next => rfl
  next found => cases found.symm.trans h

theorem squeezeBehind_of_token (outer : Bool) {cs : List Char} {s : Scan}
    (h : Scan.token? (Gap.leading cs).2 = some s) :
    squeezeBehind outer cs =
      Gap.squeezed (Gap.leading cs).1 ++ (s.taken ++ squeezeBehind outer s.rest) := by
  rw [squeezeBehind]
  split
  next absent => cases absent.symm.trans h
  next found =>
    cases found.symm.trans h
    rfl

/-- A squeezed text is the same up to its first gap, in whose place a blank stands. -/
theorem squeezeBehind_cases (outer : Bool) (cs : List Char) :
    squeezeBehind outer cs = cs ∨
      ∃ front rest more, cs = front ++ rest ∧ Gap.opens rest = true ∧
        squeezeBehind outer cs = front ++ ' ' :: more := by
  have whole := Gap.leading_append cs
  fun_induction squeezeBehind outer cs with
  | case1 cs absent =>
      rcases Gap.margin_cases outer (Gap.leading cs).1 with same | ⟨wide, blank⟩
      · rw [same]
        exact .inl whole
      · rw [blank]
        exact .inr ⟨[], cs, (Gap.leading cs).2, rfl, Gap.opens_of_leading wide, rfl⟩
  | case2 cs s found ih =>
      rcases Gap.squeezed_cases (Gap.leading cs).1 with ⟨none, same⟩ | ⟨wide, blank⟩
      · -- The text begins with the token, and the first gap is one behind it.
        rw [none, List.nil_append] at whole
        rw [whole] at found
        have split := (Scan.splits_of_token? found).1
        rw [same, List.nil_append]
        rcases ih (Gap.leading_append s.rest) with rest | ⟨front, rest, more, text, opened, later⟩
        · rw [rest]
          exact .inl split
        · refine .inr ⟨s.taken ++ front, rest, more, ?_, opened, ?_⟩
          · rw [List.append_assoc, ← text, split]
          · rw [later, List.append_assoc]
      · rw [blank]
        exact .inr ⟨[], cs, _, rfl, Gap.opens_of_leading wide, rfl⟩

theorem token?_squeezeBehind (outer : Bool) {cs : List Char} {s : Scan}
    (h : Scan.token? cs = some s) :
    Scan.token? (s.taken ++ squeezeBehind outer s.rest) =
      some { s with rest := squeezeBehind outer s.rest } := by
  have split := (Scan.splits_of_token? h).1
  rcases squeezeBehind_cases outer s.rest with same | ⟨front, rest, more, text, opened, squeezed⟩
  · rw [same, split]
    exact h
  · obtain ⟨e, later, rfl⟩ : ∃ e later, rest = e :: later := by
      cases rest with
      | nil => contradiction
      | cons e later => exact ⟨e, later, rfl⟩
    rw [← split, text, ← List.append_assoc] at h
    have cut := Scan.token?_cut (Gap.isBreak_of_opens opened) h text
    have followed := Scan.token?_followed (e := ' ') rfl more cut
    rw [List.append_assoc, ← squeezed] at followed
    rw [followed, Scan.followedBy, ← squeezed]

section Closed

variable (outer : Bool) {cs : List Char} (closed : Gap.opens cs = false)
include closed

theorem squeezeBehind_closed :
    squeezeBehind outer cs = cs ∨
      ∃ front rest more, front ≠ [] ∧ cs = front ++ rest ∧
        squeezeBehind outer cs = front ++ ' ' :: more := by
  rcases squeezeBehind_cases outer cs with same | ⟨front, rest, more, text, opened, squeezed⟩
  · exact .inl same
  · refine .inr ⟨front, rest, more, ?_, text, squeezed⟩
    rintro rfl
    rw [text, List.nil_append, opened] at closed
    contradiction

theorem opens_squeezeBehind : Gap.opens (squeezeBehind outer cs) = false := by
  rcases squeezeBehind_closed outer closed with same | ⟨front, rest, more, nonempty, text, squeezed⟩
  · rw [same]
    exact closed
  · rw [text] at closed
    rw [squeezed]
    exact Gap.opens_append_blank nonempty closed more

theorem before_squeezeBehind {gap : List Char} (h : Gap.Before cs gap) :
    Gap.Before (squeezeBehind outer cs) gap := by
  rcases squeezeBehind_closed outer closed with same | ⟨front, rest, more, nonempty, text, squeezed⟩
  · rw [same]
    exact h
  · obtain ⟨c, front, rfl⟩ := List.exists_cons_of_ne_nil nonempty
    rw [text] at h closed
    rw [squeezed]
    have short := Gap.Before.of_append h (Gap.inLine_of_closed closed)
    exact short.append (List.cons_ne_nil c front) (' ' :: more)

end Closed

theorem squeezeBehind_of_closed (outer : Bool) {cs : List Char} {s : Scan}
    (closed : Gap.opens cs = false) (h : Scan.token? cs = some s) :
    squeezeBehind outer cs = s.taken ++ squeezeBehind outer s.rest := by
  have leading := Gap.leading_of_closed closed
  have found : Scan.token? (Gap.leading cs).2 = some s := by
    rw [leading]
    exact h
  rw [squeezeBehind_of_token outer found, leading]
  rfl

theorem le_of_mem_scanFrom {offset : Nat} {cs : List Char} {ls : List Lexeme}
    (h : scanFrom offset cs = .ok ls) {l : Lexeme} (member : l ∈ ls) :
    offset ≤ l.start ∧ offset ≤ l.stop := by
  obtain ⟨before, slice, after, -, start, stop, -⟩ := (tiles_of_scanFrom h).exists_slice member
  omega

/-- The place of a lexeme can be changed apart from the places behind it. -/
theorem exists_relocate_cons (offset offset' : Nat) (l l' : Lexeme) {later : List Lexeme}
    {f : Nat → Nat} (same : l'.token = l.token ∧ l'.raw = l.raw)
    (order : offset ≤ l.start ∧ l.start < l.stop) (start : l.start = offset → l'.start = offset')
    (stop : f l.stop = l'.stop) (behind : ∀ m ∈ later, l.stop ≤ m.start ∧ l.stop ≤ m.stop) :
    ∃ g : Nat → Nat, g offset = offset' ∧
      (l :: later).map (relocate g) = l' :: later.map (relocate f) := by
  let g := fun n => if l.stop ≤ n then f n else if n = l.start then l'.start else offset'
  refine ⟨g, ?_, ?_⟩
  · have before : ¬ l.stop ≤ offset := by omega
    simp only [g, if_neg before]
    split
    next here => exact start here.symm
    next => rfl
  · rw [List.map_cons, List.cons.injEq]
    constructor
    · have before : ¬ l.stop ≤ l.start := by omega
      simp [g, relocate, before, stop, ← same.1, ← same.2]
    · refine List.map_congr_left fun m member => ?_
      simp [g, relocate, behind m member]

theorem scanFrom_squeezeBehind_of_token (outer : Bool) (offset : Nat) {cs : List Char} {s : Scan}
    (closed : Gap.opens (Gap.leading cs).2 = false)
    (found : Scan.token? (Gap.leading cs).2 = some s) :
    scanFrom offset (squeezeBehind outer cs) =
      (scanFrom (ofScan offset (Gap.squeezed (Gap.leading cs).1) s).stop
        (squeezeBehind outer s.rest)).map
        (ofScan offset (Gap.squeezed (Gap.leading cs).1) s :: ·) := by
  have squeezed := squeezeBehind_of_token outer found
  have token := token?_squeezeBehind outer found
  rw [← squeezeBehind_of_closed outer closed found] at squeezed token
  have still := opens_squeezeBehind outer closed
  have leading := Gap.leading_squeezed (Gap.leading cs).1 still
  rw [← squeezed] at leading
  exact scanFrom_of_token offset leading (Gap.startsComment_of_closed still) token

theorem start_ofScan_squeezed (offset offset' : Nat) (gap : List Char) (s : Scan)
    (h : (ofScan offset gap s).start = offset) :
    (ofScan offset' (Gap.squeezed gap) s).start = offset' := by
  rcases Gap.squeezed_cases gap with ⟨-, none⟩ | ⟨wide, -⟩
  · rw [none]
    rfl
  · have positive := byteLength_pos wide
    simp only [ofScan] at h
    omega

theorem exists_scanFrom_squeezeBehind (outer : Bool) {offset : Nat} {cs : List Char}
    {ls : List Lexeme} (feeds : Gap.ReturnsFeed cs) (h : scanFrom offset cs = .ok ls)
    (offset' : Nat) :
    ∃ f : Nat → Nat, f offset = offset' ∧
      scanFrom offset' (squeezeBehind outer cs) = .ok (ls.map (relocate f)) := by
  -- Along the text, a gap and a token at a time.
  induction size : cs.length using Nat.strongRecOn generalizing offset cs ls offset' with
  | ind _ ih =>
      rcases exists_of_scanFrom h with ⟨ended, rfl⟩ | ⟨s, later, commented, found, read, rfl⟩
      · have gap := Gap.before_leading cs
        have absent : Scan.token? (Gap.leading cs).2 = none := by
          rw [ended]
          rfl
        have leading := Gap.leading_margin outer (ended ▸ gap) rfl
        rw [List.append_nil] at leading
        refine ⟨fun _ => offset', rfl, ?_⟩
        rw [squeezeBehind_of_none outer absent, ended, List.append_nil, scanFrom_eq, leading]
        rfl
      · have suffix := Gap.leading_suffix cs
        obtain ⟨split, nonempty⟩ := Scan.splits_of_token? found
        have closed := (feeds.of_suffix suffix).closed (Gap.piece?_leading cs) commented
        have rest : s.rest <:+ cs := List.IsSuffix.trans ⟨s.taken, split⟩ suffix
        have shorter := Nat.lt_of_lt_of_le (Scan.length_lt_of_token? found)
          (Gap.length_leading_le cs)
        have order : offset ≤ (ofScan offset (Gap.leading cs).1 s).start ∧
            (ofScan offset (Gap.leading cs).1 s).start <
              (ofScan offset (Gap.leading cs).1 s).stop := by
          have positive := byteLength_pos nonempty
          simp only [ofScan]
          omega
        obtain ⟨f, stop, others⟩ := ih _ (size ▸ shorter) (feeds.of_suffix rest) read
          (ofScan offset' (Gap.squeezed (Gap.leading cs).1) s).stop rfl
        obtain ⟨g, front, places⟩ := exists_relocate_cons offset offset'
          (ofScan offset (Gap.leading cs).1 s)
          (ofScan offset' (Gap.squeezed (Gap.leading cs).1) s) ⟨rfl, rfl⟩ order
          (start_ofScan_squeezed offset offset' _ s) stop
          (fun m member => le_of_mem_scanFrom read member)
        refine ⟨g, front, ?_⟩
        rw [places, scanFrom_squeezeBehind_of_token outer offset' closed found, others]
        rfl

theorem startsComment_of_scanFrom {offset : Nat} {cs : List Char} {ls : List Lexeme}
    (h : scanFrom offset cs = .ok ls) : startsComment (Gap.leading cs).2 = false := by
  rcases exists_of_scanFrom h with ⟨ended, -⟩ | ⟨s, later, commented, -⟩
  · rw [ended]
    rfl
  · exact commented

theorem scanFrom_of_leading (offset : Nat) {cs gap rest : List Char}
    (split : Gap.leading cs = (gap, rest)) (closed : Gap.leading rest = ([], rest)) :
    scanFrom offset cs = scanFrom (offset + byteLength gap) rest := by
  rw [scanFrom_eq, scanFrom_eq (offset + byteLength gap), split, closed]
  rfl

end Lexeme

namespace Script

/-- A script with one blank in the place of every gap between two lexemes. The gaps before
    the first and behind the last lexeme stay as they are unless they are squeezed, too. -/
def squeeze (outer : Bool) (script : String) : String :=
  let leading := Gap.leading script.toList
  .ofList (Gap.margin outer leading.1 ++ Lexeme.squeezeBehind outer leading.2)

example : squeeze false "\t a.b- -/**/ 'c  d'--\r\n /#e" = "\t a.b- - 'c  d' /#e" := by
  decide +kernel

end Script

theorem Lexeme.exists_tokenize_squeeze (outer : Bool) {script : String} {lexemes : List Lexeme}
    (feeds : Gap.ReturnsFeed script.toList) (h : tokenize script = .ok lexemes) :
    ∃ f : Nat → Nat,
      tokenize (Script.squeeze outer script) = .ok (lexemes.map (relocate f)) := by
  cases scanned : scanFrom 0 script.toList with
  | error e => simp [tokenize, scanned] at h
  | ok ls =>
      simp only [tokenize, scanned, Except.ok.injEq] at h
      subst h
      have feeds := feeds.of_suffix (Gap.leading_suffix script.toList)
      have closed := feeds.closed (Gap.piece?_leading _) (startsComment_of_scanFrom scanned)
      have still := opens_squeezeBehind outer closed
      have before := before_squeezeBehind outer closed (Gap.before_leading script.toList)
      have leading := Gap.leading_margin outer before still
      rw [scanFrom_of_leading 0 rfl (Gap.leading_of_closed closed)] at scanned
      obtain ⟨f, -, others⟩ := exists_scanFrom_squeezeBehind outer feeds scanned
        (0 + byteLength (Gap.margin outer (Gap.leading script.toList).1))
      refine ⟨f, ?_⟩
      rw [tokenize, Script.squeeze, String.toList_ofList,
        scanFrom_of_leading 0 leading (Gap.leading_of_closed still), others]
      simp only [mergeCompounds_relocate]

namespace Script

/-- Scripts with the same lexemes at other positions are read alike. -/
theorem parse_of_relocated {a b : String} {lexemes : List Lexeme} {f : Nat → Nat}
    (ha : Lexeme.tokenize a = .ok lexemes)
    (hb : Lexeme.tokenize b = .ok (lexemes.map (Lexeme.relocate f))) :
    parse b = relocateResult f id (parse a) := by
  rw [parse, parse, ha, hb]
  simp only [chunks_relocate, statements_relocate]

/-- Gaps mean nothing. Where every carriage return comes with its line feed and there are
    lexemes at all, a squeezed script has the same tokens with the same spellings, and is read
    as the same statements or with the same complaint. -/
theorem tokenize_squeeze (outer : Bool) {script : String} {lexemes : List Lexeme}
    (feeds : Gap.ReturnsFeed script.toList) (h : Lexeme.tokenize script = .ok lexemes) :
    (∃ others, Lexeme.tokenize (squeeze outer script) = .ok others ∧
      others.map (fun l => (l.token, l.raw)) = lexemes.map (fun l => (l.token, l.raw))) ∧
    (∀ found, parse script = .ok found → parse (squeeze outer script) = .ok found) ∧
    ∀ p complaint, parse script = .error ⟨p, complaint⟩ →
      ∃ q, parse (squeeze outer script) = .error ⟨q, complaint⟩ := by
  obtain ⟨f, squeezed⟩ := Lexeme.exists_tokenize_squeeze outer feeds h
  have read := parse_of_relocated h squeezed
  refine ⟨⟨_, squeezed, ?_⟩, ?_, ?_⟩
  · rw [List.map_map]
    rfl
  · intro found ok
    rw [read, ok]
    rfl
  · intro p complaint error
    rw [read, error]
    exact ⟨f p, rfl⟩

/-- A compound keyword around a comment, and a complaint. -/
theorem tokenize_squeeze_drops :
    squeeze false "DROP TABLE IF-- a\r\n EXISTS/**/t#b" = "DROP TABLE IF EXISTS t#b" ∧
    (∃ others, Lexeme.tokenize "DROP TABLE IF EXISTS t#b" = .ok others ∧
      others.map (fun l => (l.token, l.raw)) =
        [(.keyword "DROP", "DROP"), (.keyword "TABLE", "TABLE"),
          (.keyword "IF EXISTS", "IF EXISTS"), (.identifier "t", "t")]) ∧
    parse "DROP TABLE IF EXISTS t#b" = .ok [.drop ⟨["t"]⟩] ∧
    ∃ q, parse (squeeze true "DROP --\nTABLE ") = .error ⟨q, .expectedName⟩ := by
  have text : squeeze false "DROP TABLE IF-- a\r\n EXISTS/**/t#b" = "DROP TABLE IF EXISTS t#b" := by
    decide +kernel
  have read : Lexeme.tokenize "DROP TABLE IF-- a\r\n EXISTS/**/t#b" =
      .ok [⟨.keyword "DROP", "DROP", 0, 4⟩, ⟨.keyword "TABLE", "TABLE", 5, 10⟩,
        ⟨.keyword "IF EXISTS", "IF EXISTS", 11, 26⟩, ⟨.identifier "t", "t", 30, 31⟩] := by
    decide +kernel
  have squeezed := tokenize_squeeze false (by decide +kernel) read
  rw [text] at squeezed
  have unfinished : Lexeme.tokenize "DROP --\nTABLE " =
      .ok [⟨.keyword "DROP", "DROP", 0, 4⟩, ⟨.keyword "TABLE", "TABLE", 8, 13⟩] := by
    decide +kernel
  exact ⟨text, squeezed.1, squeezed.2.1 _ (by decide +kernel),
    (tokenize_squeeze true (by decide +kernel) unfinished).2.2 13 .expectedName (by decide +kernel)⟩

end Script

end TableShift
