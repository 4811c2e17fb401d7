import TableShift.Sql.Token
import TableShift.Sql.Vocabulary
import TableShift.Text.Alphanumeric
import TableShift.Text.Numeral

/-! # Scanning one token

Each scanner looks at the head of a text for one shape of token and says which
characters it took and which are left. Quoted text that is never closed is
broken: no other shape is tried at its place.
-/

namespace TableShift

/-- A token found at the head of a text. -/
structure Scan where
  token : Token
  /-- The spelling kept with the token. -/
  raw : String
  /-- The characters taken. -/
  taken : List Char
  /-- The characters left. -/
  rest : List Char
  deriving Repr, DecidableEq

/-- The outcome of looking for one shape. -/
inductive Attempt (α : Type) where
  /-- The shape stands at the head. -/
  | found (a : α)
  /-- Another shape may stand there. -/
  | absent
  /-- The shape begins there and never ends. -/
  | broken
  deriving Repr, DecidableEq

namespace Scan

/-- The quote around names. -/
def backQuote : Char := '\x60'

/-- The characters that may follow one another in a bare word. -/
def isWordChar (c : Char) : Bool :=
  isAlphanumeric c || c == '_' || c == '$'

/-- The marks that are tokens of their own. -/
def marks : List Char :=
  "(),;.=<>+-*/%!:@?&|~^[]\x7b\x7d".toList

/-- A name between back quotes; nothing inside is special. -/
def backQuoted? : List Char → Option Scan
  | [] => none
  | c :: cs =>
    if c = backQuote then
      let name := cs.takeWhile (· != backQuote)
      match cs.dropWhile (· != backQuote) with
      | [] => none
      | close :: rest =>
        some ⟨.identifier (String.ofList name), String.ofList name, c :: name ++ [close], rest⟩
    else none

/-- The character that a backslash and another character stand for. -/
def unescape (c : Char) : Char :=
  match c with
  | 'n' => '\n'
  | 't' => '\t'
  | 'r' => '\r'
  | '0' => '\x00'
  | other => other

/-- Quoted text: the characters taken, those they stand for, and those left. -/
structure Quoted where
  taken : List Char
  text : List Char
  rest : List Char
  deriving Repr, DecidableEq

/-- Puts characters that stand for one in front of quoted text. -/
def Quoted.cons (taken : List Char) (meaning : Char) (q : Quoted) : Quoted :=
  ⟨taken ++ q.taken, meaning :: q.text, q.rest⟩

/-- Reads up to and with the closing quote. A doubled quote stands for one, and a
    backslash joins the character after it. -/
def quotedBody? (quote : Char) : List Char → Option Quoted
  | [] => none
  | [c] => if c = '\\' then none else if c = quote then some ⟨[c], [], []⟩ else none
  | c :: d :: cs =>
    if c = '\\' then (quotedBody? quote cs).map (.cons [c, d] (unescape d))
    else if c = quote then
      if d = quote then (quotedBody? quote cs).map (.cons [c, d] quote)
      else some ⟨[c], [], d :: cs⟩
    else (quotedBody? quote (d :: cs)).map (.cons [c] c)

/-- Text between single or double quotes. -/
def quoted : List Char → Attempt Quoted
  | [] => .absent
  | c :: cs =>
    if c = '\'' ∨ c = '"' then
      match quotedBody? c cs with
      | some q => .found ⟨c :: q.taken, q.text, q.rest⟩
      | none => .broken
    else .absent

def stringLiteral (cs : List Char) : Attempt Scan :=
  match quoted cs with
  | .found q =>
    .found ⟨.literal (.string (String.ofList q.text)), String.ofList q.text, q.taken, q.rest⟩
  | .absent => .absent
  | .broken => .broken

/-- The radix that a letter before a quoted text announces. -/
def radixOf? (c : Char) : Option Nat :=
  if c = 'b' ∨ c = 'B' then some 2
  else if c = 'x' ∨ c = 'X' then some 16
  else none

/-- The value of a bit or hexadecimal literal: the number below 2¹²⁸ that its digits
    spell, in decimal; other text stays a string. -/
def radixValue (radix : Nat) (text : List Char) : Value :=
  match unsigned? radix (UInt64.size * UInt64.size) text with
  | some n => .number (toString n)
  | none => .string (String.ofList text)

/-- A bit or hexadecimal literal, such as `x'0A'`. -/
def radixLiteral : List Char → Attempt Scan
  | [] => .absent
  | c :: cs =>
    match radixOf? c with
    | none => .absent
    | some radix =>
      match quoted cs with
      | .found q =>
        .found ⟨.literal (radixValue radix q.text), String.ofList (c :: q.taken), c :: q.taken, q.rest⟩
      | .absent => .absent
      | .broken => .broken

/-- The minus sign at the head, and what follows. -/
def sign : List Char → List Char × List Char
  | '-' :: cs => (['-'], cs)
  | cs => ([], cs)

/-- The point and digits at the head, and what follows. -/
def fraction : List Char → List Char × List Char
  | '.' :: cs => ('.' :: cs.takeWhile Char.isDigit, cs.dropWhile Char.isDigit)
  | cs => ([], cs)

/-- A numeral: an optional minus sign, digits, and an optional point with any number
    of digits, not directly before a word character. -/
def number? (cs : List Char) : Option Scan :=
  let (minus, unsigned) := sign cs
  let whole := unsigned.takeWhile Char.isDigit
  let (point, rest) := fraction (unsigned.dropWhile Char.isDigit)
  let taken := minus ++ whole ++ point
  if whole.isEmpty || rest.head?.any isWordChar then none
  else some ⟨.literal (.number (String.ofList taken)), String.ofList taken, taken, rest⟩

/-- The token of a bare word: a keyword if its upper-case form is one. -/
def wordToken (word : String) : Token :=
  let upper := upperAscii word
  if upper = "CHARSET" then .keyword "CHARACTER SET"
  else if isKeywordWord upper then .keyword upper
  else .identifier word

/-- A bare word: the longest run of word characters. -/
def word? (cs : List Char) : Option Scan :=
  let taken := cs.takeWhile isWordChar
  if taken.isEmpty then none
  else some ⟨wordToken (String.ofList taken), String.ofList taken, taken, cs.dropWhile isWordChar⟩

def mark? : List Char → Option Scan
  | [] => none
  | c :: cs => if marks.contains c then some ⟨.punct c, String.singleton c, [c], cs⟩ else none

/-- The token at the head of a text. -/
def token? (cs : List Char) : Option Scan :=
  match backQuoted? cs with
  | some s => some s
  | none =>
    match stringLiteral cs with
    | .found s => some s
    | .broken => none
    | .absent =>
      match radixLiteral cs with
      | .found s => some s
      | .broken => none
      | .absent => (number? cs).or ((word? cs).or (mark? cs))

/-! ## Nothing is lost

The characters a scanner takes and those it leaves make up the text, and it takes
at least one. -/

/-- A scan that splits the given text and takes some of it. -/
def Splits (cs : List Char) (s : Scan) : Prop :=
  s.taken ++ s.rest = cs ∧ s.taken ≠ []

theorem splits_of_backQuoted? {cs : List Char} {s : Scan}
    (h : backQuoted? cs = some s) : Splits cs s := by
  unfold backQuoted? at h
  split at h
  · simp at h
  · rename_i c cs
    split at h
    · have hsplit := List.takeWhile_append_dropWhile (p := (· != backQuote)) (l := cs)
      split at h
      · simp at h
      · rename_i close rest hdrop
        rw [hdrop] at hsplit
        simp only [Option.some.injEq] at h
        subst h
        exact ⟨by simp only [List.cons_append, List.append_assoc, List.nil_append, hsplit], by simp⟩
    · simp at h

theorem append_of_quotedBody? {quote : Char} {cs : List Char} {q : Quoted}
    (h : quotedBody? quote cs = some q) : q.taken ++ q.rest = cs := by
  fun_induction quotedBody? quote cs generalizing q with
  | case1 => simp at h
  | case2 => simp at h
  | case3 => simp only [Option.some.injEq] at h; subst h; rfl
  | case4 => simp at h
  | case5 _ _ ih =>
    obtain ⟨inner, hinner, rfl⟩ := Option.map_eq_some_iff.mp h
    simp [Quoted.cons, ih hinner]
  | case6 _ _ ih =>
    obtain ⟨inner, hinner, rfl⟩ := Option.map_eq_some_iff.mp h
    simp [Quoted.cons, ih hinner]
  | case7 => simp only [Option.some.injEq] at h; subst h; rfl
  | case8 _ _ _ _ _ ih =>
    obtain ⟨inner, hinner, rfl⟩ := Option.map_eq_some_iff.mp h
    simp [Quoted.cons, ih hinner]

theorem append_of_quoted {cs : List Char} {q : Quoted} (h : quoted cs = .found q) :
    q.taken ++ q.rest = cs ∧ q.taken ≠ [] := by
  unfold quoted at h
  split at h
  · simp at h
  · split at h
    · split at h
      · rename_i found
        simp only [Attempt.found.injEq] at h
        subst h
        exact ⟨by simp [append_of_quotedBody? found], by simp⟩
      · simp at h
    · simp at h

theorem splits_of_stringLiteral {cs : List Char} {s : Scan}
    (h : stringLiteral cs = .found s) : Splits cs s := by
  unfold stringLiteral at h
  split at h
  · rename_i found
    simp only [Attempt.found.injEq] at h
    subst h
    exact append_of_quoted found
  · simp at h
  · simp at h

theorem splits_of_radixLiteral {cs : List Char} {s : Scan}
    (h : radixLiteral cs = .found s) : Splits cs s := by
  unfold radixLiteral at h
  split at h
  · simp at h
  · split at h
    · simp at h
    · split at h
      · rename_i found
        simp only [Attempt.found.injEq] at h
        subst h
        exact ⟨by simp [(append_of_quoted found).1], by simp⟩
      · simp at h
      · simp at h

theorem sign_append (cs : List Char) : (sign cs).1 ++ (sign cs).2 = cs := by
  unfold sign
  split <;> rfl

theorem fraction_append (cs : List Char) : (fraction cs).1 ++ (fraction cs).2 = cs := by
  unfold fraction
  split
  · simp [List.takeWhile_append_dropWhile]
  · rfl

theorem splits_of_number? {cs : List Char} {s : Scan} (h : number? cs = some s) : Splits cs s := by
  simp only [number?] at h
  split at h
  · simp at h
  · rename_i hcond
    simp only [Option.some.injEq] at h
    subst h
    constructor
    · simp only [List.append_assoc, fraction_append]
      rw [List.takeWhile_append_dropWhile, sign_append]
    · intro hnil
      simp only [List.append_assoc, List.append_eq_nil_iff] at hnil
      simp [hnil.2.1] at hcond

theorem splits_of_word? {cs : List Char} {s : Scan} (h : word? cs = some s) : Splits cs s := by
  simp only [word?] at h
  split at h
  · simp at h
  · rename_i hcond
    simp only [Option.some.injEq] at h
    subst h
    exact ⟨List.takeWhile_append_dropWhile, by simpa using hcond⟩

theorem splits_of_mark? {cs : List Char} {s : Scan} (h : mark? cs = some s) : Splits cs s := by
  unfold mark? at h
  split at h
  · simp at h
  · split at h
    · simp only [Option.some.injEq] at h
      subst h
      exact ⟨rfl, by simp⟩
    · simp at h

/-- A token has one of six shapes. -/
theorem shape_of_token? {cs : List Char} {s : Scan} (h : token? cs = some s) :
    backQuoted? cs = some s ∨ stringLiteral cs = .found s ∨ radixLiteral cs = .found s ∨
      number? cs = some s ∨ word? cs = some s ∨ mark? cs = some s := by
  unfold token? at h
  split at h
  · rename_i found
    exact .inl (found.trans h)
  · split at h
    · rename_i found
      cases h
      exact .inr (.inl found)
    · simp at h
    · split at h
      · rename_i found
        cases h
        exact .inr (.inr (.inl found))
      · simp at h
      · simp only [Option.or_eq_some_iff] at h
        rcases h with h | ⟨_, h | ⟨_, h⟩⟩
        · exact .inr (.inr (.inr (.inl h)))
        · exact .inr (.inr (.inr (.inr (.inl h))))
        · exact .inr (.inr (.inr (.inr (.inr h))))

/-- A scanned token's characters and those left make up the text, and the token has
    at least one character. -/
theorem splits_of_token? {cs : List Char} {s : Scan} (h : token? cs = some s) : Splits cs s := by
  rcases shape_of_token? h with name | text | digits | number | word | mark
  · exact splits_of_backQuoted? name
  · exact splits_of_stringLiteral text
  · exact splits_of_radixLiteral digits
  · exact splits_of_number? number
  · exact splits_of_word? word
  · exact splits_of_mark? mark

theorem length_lt_of_token? {cs : List Char} {s : Scan} (h : token? cs = some s) :
    s.rest.length < cs.length := by
  obtain ⟨happ, hne⟩ := splits_of_token? h
  have hlen := congrArg List.length happ
  have hpos := List.length_pos_iff.mpr hne
  rw [List.length_append] at hlen
  omega

end Scan

end TableShift
