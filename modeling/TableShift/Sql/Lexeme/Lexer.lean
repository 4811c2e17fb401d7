import TableShift.Sql.Lexeme
import TableShift.Sql.Lexeme.Gap
import TableShift.Sql.Lexeme.Scan
import TableShift.Sql.SyntaxError

/-! # Lexemes of a script

A script is an alternation of gaps and tokens. Reading stops at the first place
where neither continues, with a complaint about that place.
-/

namespace TableShift.Lexeme

/-- Whether a text starts with a quote. -/
def startsQuoted (cs : List Char) : Bool :=
  match cs with
  | c :: _ => c == '\'' || c == '"' || c == Scan.backQuote
  | [] => false

/-- What to say about a text at whose head no token stands. -/
def complaintAt : List Char → Complaint
  | [] => .unexpectedCharacter '\x00'
  | c :: cs =>
    let afterRadix := (Scan.radixOf? c).isSome && cs.head? == some '\''
    if startsQuoted (c :: cs) || afterRadix then .unterminatedQuote
    else .unexpectedCharacter c

/-- Whether a text starts a block comment. -/
def startsComment (cs : List Char) : Bool :=
  cs.take 2 == ['/', '*']

/-- The lexemes of a text that begins at a byte offset, compounds not yet merged. -/
def scanFrom (offset : Nat) (cs : List Char) : Except SyntaxError (List Lexeme) :=
  let leading := Gap.leading cs
  let start := offset + byteLength leading.1
  if leading.2.isEmpty then .ok []
  else if startsComment leading.2 then .error ⟨start, .unterminatedComment⟩
  else
    match _h : Scan.token? leading.2 with
    | none => .error ⟨start, complaintAt leading.2⟩
    | some s =>
      let stop := start + byteLength s.taken
      match scanFrom stop s.rest with
      | .ok lexemes => .ok (⟨s.token, s.raw, start, stop⟩ :: lexemes)
      | .error e => .error e
termination_by cs.length
decreasing_by
  exact Nat.lt_of_lt_of_le (Scan.length_lt_of_token? _h) (Gap.length_leading_le cs)

/-- The lexeme of a token that stands behind a gap. -/
def ofScan (offset : Nat) (gap : List Char) (s : Scan) : Lexeme :=
  ⟨s.token, s.raw, offset + byteLength gap, offset + byteLength gap + byteLength s.taken⟩

/-- A gap, and then nothing, a lexeme or a complaint. -/
theorem scanFrom_eq (offset : Nat) (cs : List Char) :
    scanFrom offset cs =
      if (Gap.leading cs).2.isEmpty then .ok []
      else if startsComment (Gap.leading cs).2 then
        .error ⟨offset + byteLength (Gap.leading cs).1, .unterminatedComment⟩
      else
        match Scan.token? (Gap.leading cs).2 with
        | none => .error ⟨offset + byteLength (Gap.leading cs).1, complaintAt (Gap.leading cs).2⟩
        | some s =>
          (scanFrom (ofScan offset (Gap.leading cs).1 s).stop s.rest).map
            (ofScan offset (Gap.leading cs).1 s :: ·) := by
  rw [scanFrom]
  split
  · rfl
  · split
    · rfl
    · split
      next absent => rw [absent]
      next found =>
        rw [found]
        dsimp only
        split
        next read => simp only [ofScan, read, Except.map]
        next failed => simp only [ofScan, failed, Except.map]

/-- A text with lexemes is a gap alone, or a gap and a token before a text with the others. -/
theorem exists_of_scanFrom {offset : Nat} {cs : List Char} {ls : List Lexeme}
    (h : scanFrom offset cs = .ok ls) :
    (Gap.leading cs).2 = [] ∧ ls = [] ∨
      ∃ s later, startsComment (Gap.leading cs).2 = false ∧
        Scan.token? (Gap.leading cs).2 = some s ∧
        scanFrom (ofScan offset (Gap.leading cs).1 s).stop s.rest = .ok later ∧
        ls = ofScan offset (Gap.leading cs).1 s :: later := by
  rw [scanFrom_eq] at h
  split at h
  next ended =>
    cases h
    exact .inl ⟨List.isEmpty_iff.mp ended, rfl⟩
  next =>
    split at h
    next => contradiction
    next commented =>
      split at h
      next => contradiction
      next s found =>
        cases read : scanFrom (ofScan offset (Gap.leading cs).1 s).stop s.rest with
        | error e => simp [read, Except.map] at h
        | ok later =>
          simp only [read, Except.map, Except.ok.injEq] at h
          exact .inr ⟨s, later, by simpa using commented, found, read, h.symm⟩

def tokenize (script : String) : Except SyntaxError (List Lexeme) :=
  match scanFrom 0 script.toList with
  | .ok lexemes => .ok (mergeCompounds lexemes)
  | .error e => .error e

end TableShift.Lexeme
