import Mathlib.Data.List.Basic
import TableShift.Proofs.CanonicalSyntax
import TableShift.Proofs.Isolation

/-! # Reading phrases

Canonical text is read phrase by phrase. Whatever stands inside a name or a string, a phrase
is one lexeme, and no phrase joins the next one: a keyword that could be the beginning of a
longer one is never followed by the word that completes it.
-/

namespace TableShift

/-! ## Tokens alone -/

namespace Scan

open Canonical

theorem token?_name {cs : List Char} (plain : backQuote ∉ cs) :
    token? (backQuote :: (cs ++ [backQuote])) =
      some ⟨.identifier (.ofList cs), .ofList cs, backQuote :: (cs ++ [backQuote]), []⟩ := by
  have inside : ∀ c ∈ cs, (c != backQuote) = true := by
    intro c member
    simpa using ne_of_mem_of_not_mem member plain
  have name : (cs ++ [backQuote]).takeWhile (· != backQuote) = cs := by
    rw [List.takeWhile_append_of_pos inside]
    simp
  have close : (cs ++ [backQuote]).dropWhile (· != backQuote) = [backQuote] := by
    rw [List.dropWhile_append_of_pos inside]
    simp
  rw [token?_backQuote]
  simp only [backQuoted?, if_true, name, close]
  rfl

theorem quotedBody?_double (cs : List Char) :
    quotedBody? '\'' (cs.flatMap double ++ ['\'']) =
      some ⟨cs.flatMap double ++ ['\''], cs, []⟩ := by
  induction cs with
  | nil => rfl
  | cons c cs ih =>
      rw [List.flatMap_cons, List.append_assoc]
      by_cases doubled : c = '\'' ∨ c = '\\'
      · rcases doubled with rfl | rfl
        · simp [double, quotedBody?, ih, Quoted.cons]
        · simp [double, quotedBody?, ih, Quoted.cons, unescape]
      · obtain ⟨plain, unescaped⟩ := not_or.mp doubled
        -- The text is not at its end: the closing quote is still to come.
        obtain ⟨d, rest, more⟩ := List.exists_cons_of_ne_nil
          (List.append_ne_nil_of_right_ne_nil (cs.flatMap double) (List.cons_ne_nil '\'' []))
        rw [more] at ih ⊢
        simp [double, quotedBody?, plain, unescaped, ih, Quoted.cons]

theorem token?_string (cs : List Char) :
    token? ('\'' :: (cs.flatMap double ++ ['\''])) =
      some ⟨.literal (.string (.ofList cs)), .ofList cs, '\'' :: (cs.flatMap double ++ ['\'']), []⟩ := by
  have text : quoted ('\'' :: (cs.flatMap double ++ ['\''])) =
      .found ⟨'\'' :: (cs.flatMap double ++ ['\'']), cs, []⟩ := by
    simp [quoted, quotedBody?_double]
  have unnamed : backQuoted? ('\'' :: (cs.flatMap double ++ ['\''])) = none := rfl
  simp only [token?, unnamed, stringLiteral, text]

theorem fraction_point {point : List Char}
    (h : point = [] ∨ ∃ digits, point = '.' :: digits ∧ ∀ c ∈ digits, c.isDigit = true) :
    point.takeWhile Char.isDigit = [] ∧ point.dropWhile Char.isDigit = point ∧
      fraction point = (point, []) := by
  rcases h with rfl | ⟨digits, rfl, listed⟩
  · exact ⟨rfl, rfl, rfl⟩
  · refine ⟨rfl, rfl, ?_⟩
    rw [fraction, List.takeWhile_eq_self_iff.mpr listed, List.dropWhile_eq_nil_iff.mpr listed]

theorem number?_numeral {cs : List Char} (h : IsNumeral cs) :
    number? cs = some ⟨.literal (.number (.ofList cs)), .ofList cs, cs, []⟩ := by
  obtain ⟨minus, whole, point, rfl, signed, nonempty, digits, fractional⟩ := h
  obtain ⟨noMore, kept, split⟩ := fraction_point fractional
  have signs : sign (minus ++ (whole ++ point)) = (minus, whole ++ point) := by
    rcases signed with rfl | rfl
    · obtain ⟨c, cs, rfl⟩ := List.exists_cons_of_ne_nil nonempty
      have unsigned : c ≠ '-' := by
        rintro rfl
        exact absurd (digits '-' List.mem_cons_self) (by decide)
      simp [sign, unsigned]
    · rfl
  simp only [number?, signs, List.takeWhile_append_of_pos digits,
    List.dropWhile_append_of_pos digits, noMore, kept, split, List.append_nil, List.head?_nil,
    Option.any_none, Bool.or_false]
  rw [if_neg (by simpa using nonempty), List.append_assoc]

theorem token?_of_first {c : Char} (plain : c ≠ backQuote ∧ c ≠ '\'' ∧ c ≠ '"')
    (unannounced : radixOf? c = none) (cs : List Char) :
    token? (c :: cs) = (number? (c :: cs)).or ((word? (c :: cs)).or (mark? (c :: cs))) := by
  have noName : backQuoted? (c :: cs) = none := by simp [backQuoted?, plain.1]
  have noString : stringLiteral (c :: cs) = .absent := by
    simp [stringLiteral, quoted, plain.2]
  have noRadix : radixLiteral (c :: cs) = .absent := by simp [radixLiteral, unannounced]
  simp only [token?, noName, noString, noRadix]

theorem exists_of_isNumeral {cs : List Char} (h : IsNumeral cs) :
    ∃ c rest, cs = c :: rest ∧
      (c.isDigit = true ∨ c = '-' ∧ ∃ d more, rest = d :: more ∧ d.isDigit = true) := by
  obtain ⟨minus, whole, point, rfl, signed, nonempty, digits, -⟩ := h
  obtain ⟨d, whole, rfl⟩ := List.exists_cons_of_ne_nil nonempty
  have digit := digits d List.mem_cons_self
  rcases signed with rfl | rfl
  · exact ⟨d, whole ++ point, rfl, .inl digit⟩
  · exact ⟨'-', d :: (whole ++ point), rfl, .inr ⟨rfl, d, whole ++ point, rfl, digit⟩⟩

theorem ne_of_isDigit {c d : Char} (digit : c.isDigit = true) (other : d.isDigit = false) :
    c ≠ d := by
  rintro rfl
  rw [digit] at other
  contradiction

theorem token?_numeral {cs : List Char} (h : IsNumeral cs) :
    token? cs = some ⟨.literal (.number (.ofList cs)), .ofList cs, cs, []⟩ := by
  obtain ⟨c, rest, rfl, first⟩ := exists_of_isNumeral h
  have plain : c ≠ backQuote ∧ c ≠ '\'' ∧ c ≠ '"' := by
    rcases first with digit | ⟨rfl, _⟩
    · exact ⟨ne_of_isDigit digit rfl, ne_of_isDigit digit rfl, ne_of_isDigit digit rfl⟩
    · decide
  have unannounced : radixOf? c = none := by
    rcases first with digit | ⟨rfl, _⟩
    · have binary : ¬ (c = 'b' ∨ c = 'B') :=
        not_or.mpr ⟨ne_of_isDigit digit rfl, ne_of_isDigit digit rfl⟩
      have hexadecimal : ¬ (c = 'x' ∨ c = 'X') :=
        not_or.mpr ⟨ne_of_isDigit digit rfl, ne_of_isDigit digit rfl⟩
      simp only [radixOf?, if_neg binary, if_neg hexadecimal]
    · rfl
  rw [token?_of_first plain unannounced, number?_numeral h, Option.some_or]

end Scan

/-! ## Tokens in a row -/

namespace Gap

/-- Whether a gap ends before a text behind which a blank or nothing stands. -/
def stopsAt : List Char → Bool
  | [] => false
  | c :: cs => !isSpace c && c != '#' && c != '/' && !(c == '-' && cs.head? == some '-')

theorem exists_of_stopsAt {cs : List Char} (h : stopsAt cs = true) :
    ∃ c rest, cs = c :: rest ∧ isSpace c = false ∧ c ≠ '#' ∧ c ≠ '/' ∧
      ¬ (c = '-' ∧ rest.head? = some '-') := by
  cases cs with
  | nil => contradiction
  | cons c rest =>
      simp only [stopsAt, Bool.and_eq_true, Bool.not_eq_true', bne_iff_ne, ← Bool.not_eq_true,
        beq_iff_eq] at h
      exact ⟨c, rest, rfl, by simpa using h.1.1.1, h.1.1.2, h.1.2, h.2⟩

end Gap

namespace Canonical

/-- A token as it is written, and what it is read as. -/
structure Piece where
  text : String
  token : Token
  raw : String

namespace Piece

def lexeme (p : Piece) : Lexeme :=
  ⟨p.token, p.raw, 0, 0⟩

/-- A piece that is read as its token when it stands alone. -/
structure Whole (p : Piece) : Prop where
  read : Scan.token? p.text.toList = some ⟨p.token, p.raw, p.text.toList, []⟩
  visible : Gap.stopsAt p.text.toList = true

/-- Pieces with a blank before each. -/
def trail (pieces : List Piece) : List Char :=
  pieces.flatMap fun p => ' ' :: p.text.toList

theorem trail_cases (pieces : List Piece) :
    trail pieces = [] ∨ ∃ more, trail pieces = ' ' :: more := by
  cases pieces with
  | nil => exact .inl rfl
  | cons p pieces => exact .inr ⟨_, rfl⟩

variable {p : Piece}

theorem Whole.token?_trail (h : p.Whole) (pieces : List Piece) :
    Scan.token? (p.text.toList ++ trail pieces) =
      some ⟨p.token, p.raw, p.text.toList, trail pieces⟩ := by
  rcases trail_cases pieces with last | ⟨more, blank⟩
  · rw [last, List.append_nil]
    exact h.read
  · rw [blank]
    exact Scan.token?_followed rfl more h.read

theorem Whole.gap_ends (h : p.Whole) (pieces : List Piece) :
    Gap.piece? (p.text.toList ++ trail pieces) = none ∧
      Lexeme.startsComment (p.text.toList ++ trail pieces) = false := by
  obtain ⟨c, cs, spelled, dark, noHash, noSlash, noDash⟩ := Gap.exists_of_stopsAt h.visible
  have undashed : ¬ (c = '-' ∧ (cs ++ trail pieces).head? = some '-') := by
    rintro ⟨rfl, second⟩
    cases cs with
    | nil =>
        rcases trail_cases pieces with last | ⟨more, blank⟩
        · simp [last] at second
        · simp [blank] at second
    | cons d cs => exact noDash ⟨rfl, second⟩
  rw [spelled, List.cons_append]
  constructor
  · rw [Gap.piece?_blanks undashed noHash fun star => noSlash star.1, dark]
    rfl
  · simp [Lexeme.startsComment, noSlash]

theorem Whole.leading_trail (h : p.Whole) (pieces : List Piece) :
    Gap.leading (p.text.toList ++ trail pieces) = ([], p.text.toList ++ trail pieces) :=
  Gap.leading_of_piece?_none (h.gap_ends pieces).1

theorem Whole.leading_blank (h : p.Whole) (pieces : List Piece) :
    Gap.leading (trail (p :: pieces)) = ([' '], p.text.toList ++ trail pieces) := by
  obtain ⟨c, cs, spelled, dark, -⟩ := Gap.exists_of_stopsAt h.visible
  have blank : Gap.piece? (trail (p :: pieces)) = some ([' '], p.text.toList ++ trail pieces) := by
    have space : Gap.isSpace ' ' = true := rfl
    simp [trail, spelled, Gap.piece?, dark, space]
  rw [Gap.leading_of_piece? blank, h.leading_trail]
  rfl

/-- A piece behind a gap is read, and reading goes on behind it. -/
theorem Whole.scanFrom_eq (h : p.Whole) {gap cs : List Char} {pieces : List Piece}
    (leading : Gap.leading cs = (gap, p.text.toList ++ trail pieces)) (offset : Nat)
    (later : ∀ offset, ∃ ls, Lexeme.scanFrom offset (trail pieces) = .ok ls ∧
      ls.map (Lexeme.relocate fun _ => 0) = pieces.map lexeme) :
    ∃ ls, Lexeme.scanFrom offset cs = .ok ls ∧
      ls.map (Lexeme.relocate fun _ => 0) = (p :: pieces).map lexeme := by
  have read := Lexeme.scanFrom_of_token offset leading (h.gap_ends pieces).2 (h.token?_trail pieces)
  obtain ⟨ls, rest, places⟩ := later
    (Lexeme.ofScan offset gap ⟨p.token, p.raw, p.text.toList, trail pieces⟩).stop
  rw [rest] at read
  refine ⟨_, read, ?_⟩
  rw [List.map_cons, places]
  rfl

theorem scanFrom_nil (offset : Nat) : Lexeme.scanFrom offset [] = .ok [] := by
  rw [Lexeme.scanFrom_eq, Gap.leading_of_piece?_none rfl]
  rfl

theorem scanFrom_trail {pieces : List Piece} (whole : ∀ p ∈ pieces, p.Whole) (offset : Nat) :
    ∃ ls, Lexeme.scanFrom offset (trail pieces) = .ok ls ∧
      ls.map (Lexeme.relocate fun _ => 0) = pieces.map lexeme := by
  induction pieces generalizing offset with
  | nil => exact ⟨[], scanFrom_nil offset, rfl⟩
  | cons p pieces ih =>
      rw [List.forall_mem_cons] at whole
      exact whole.1.scanFrom_eq (whole.1.leading_blank pieces) offset (ih whole.2)

theorem toList_joinWith (text : String) (texts : List String) :
    (joinWith " " (text :: texts)).toList = text.toList ++ texts.flatMap (' ' :: ·.toList) := by
  induction texts generalizing text with
  | nil => simp [joinWith]
  | cons next texts ih => simp [joinWith, ih]

theorem scanFrom_joinWith {pieces : List Piece} (whole : ∀ p ∈ pieces, p.Whole) :
    ∃ ls, Lexeme.scanFrom 0 (joinWith " " (pieces.map text)).toList = .ok ls ∧
      ls.map (Lexeme.relocate fun _ => 0) = pieces.map lexeme := by
  cases pieces with
  | nil => exact ⟨[], scanFrom_nil 0, rfl⟩
  | cons p pieces =>
      rw [List.forall_mem_cons] at whole
      have spaced : (joinWith " " ((p :: pieces).map text)).toList =
          p.text.toList ++ trail pieces := by
        rw [List.map_cons, toList_joinWith, List.flatMap_map]
        rfl
      rw [spaced]
      exact whole.1.scanFrom_eq (whole.1.leading_trail pieces) 0 (scanFrom_trail whole.2)

end Piece

namespace Phrase

def words (keyword : String) : List String :=
  (compoundKeywords.find? (joinWith " " · == keyword)).getD [keyword]

def lexeme : Phrase → Lexeme
  | keyword word _ => ⟨.keyword word, word, 0, 0⟩
  | name given => ⟨.identifier given.text, given.text, 0, 0⟩
  | number numeral => ⟨.literal (.number numeral.text), numeral.text, 0, 0⟩
  | string text => ⟨.literal (.string text), text, 0, 0⟩
  | mark c _ => ⟨.punct c, .singleton c, 0, 0⟩

def wordPiece (word : String) : Piece :=
  ⟨word, .keyword word, word⟩

/-- The tokens that a phrase is made of. -/
def pieces : Phrase → List Piece
  | keyword word _ => (words word).map wordPiece
  | p => [⟨p.text, p.lexeme.token, p.lexeme.raw⟩]

/-- The words that would make a keyword of one word part of a longer one: `DOUBLE` of
    `DOUBLE PRECISION`, `UNIQUE` and `FULLTEXT` of the keywords that go on with `INDEX` or
    `KEY`. -/
def closers : List String :=
  ["PRECISION", "INDEX", "KEY"]

/-- How a keyword is made of words. A keyword is one word, which only the closers complete, or
    a pair of words that is listed; a keyword other than `INDEX` begins with no closer. -/
def Worded (keyword : String) : Prop :=
  joinWith " " (words keyword) = keyword ∧
  (words keyword = [keyword] ∧ (∀ compound ∈ compoundKeywords,
      compound.head? = some keyword → compound.tail.head? ∈ closers.map some) ∨
    (words keyword).length = 2 ∧ words keyword ∈ compoundKeywords) ∧
  (keyword ≠ "INDEX" → (words keyword).head?.any (!closers.contains ·) = true) ∧
  ∀ word ∈ words keyword,
    Scan.token? word.toList = some ⟨.keyword word, word, word.toList, []⟩ ∧
      Gap.stopsAt word.toList = true

-- The keywords are gone through once, for all that is said of them.
theorem worded_of_mem {keyword : String} (listed : keyword ∈ keywords) : Worded keyword := by
  have all : ∀ keyword ∈ keywords, Worded keyword := by
    simp only [Worded]
    decide +kernel
  exact all keyword listed

theorem joinWith_words {word : String} (listed : word ∈ keywords) :
    joinWith " " (words word) = word :=
  (worded_of_mem listed).1

theorem words_cases {word : String} (listed : word ∈ keywords) :
    words word = [word] ∨ ∃ a b, words word = [a, b] ∧ [a, b] ∈ compoundKeywords := by
  rcases (worded_of_mem listed).2.1 with ⟨single, _⟩ | ⟨length, member⟩
  · exact .inl single
  · obtain ⟨a, b, spelled⟩ := List.length_eq_two.mp length
    exact .inr ⟨a, b, spelled, spelled ▸ member⟩

theorem whole_wordPiece {keyword word : String} (listed : keyword ∈ keywords)
    (member : word ∈ words keyword) : (wordPiece word).Whole := by
  obtain ⟨read, stops⟩ := (worded_of_mem listed).2.2.2 word member
  exact ⟨read, stops⟩

theorem stopsAt_numeral {cs : List Char} (h : IsNumeral cs) : Gap.stopsAt cs = true := by
  obtain ⟨c, rest, rfl, digit | ⟨rfl, d, more, rfl, digit⟩⟩ := Scan.exists_of_isNumeral h
  · simp [Gap.stopsAt, Gap.isSpace, Scan.ne_of_isDigit digit]
  · simp [Gap.stopsAt, Gap.isSpace, Scan.ne_of_isDigit digit]

theorem whole_of_mem {phrase : Phrase} {p : Piece} (member : p ∈ phrase.pieces) : p.Whole := by
  cases phrase with
  | keyword word listed =>
      obtain ⟨part, spelled, rfl⟩ := List.mem_map.mp member
      exact whole_wordPiece listed spelled
  | name given =>
      obtain rfl := List.mem_singleton.mp member
      refine ⟨?_, ?_⟩
      · simpa [text, lexeme] using Scan.token?_name given.plain
      · simp [text, Gap.stopsAt, Gap.isSpace, Scan.backQuote]
  | number numeral =>
      obtain rfl := List.mem_singleton.mp member
      refine ⟨?_, stopsAt_numeral numeral.numeral⟩
      simpa [text, lexeme] using Scan.token?_numeral numeral.numeral
  | string text =>
      obtain rfl := List.mem_singleton.mp member
      refine ⟨?_, ?_⟩
      · simpa [Phrase.text, lexeme] using Scan.token?_string text.toList
      · simp [Phrase.text, Gap.stopsAt, Gap.isSpace]
  | mark c listed =>
      obtain rfl := List.mem_singleton.mp member
      have marks : c = '(' ∨ c = ',' ∨ c = ')' := by simpa using listed
      have read : Scan.token? [c] = some ⟨.punct c, .singleton c, [c], []⟩ ∧
          Gap.stopsAt [c] = true := by
        rcases marks with rfl | rfl | rfl <;> decide
      exact ⟨by simpa [text, lexeme] using read.1, by simpa [text] using read.2⟩

theorem text_eq_joinWith (phrase : Phrase) :
    phrase.text = joinWith " " (phrase.pieces.map Piece.text) := by
  cases phrase with
  | keyword word listed =>
      have spelled : ((words word).map wordPiece).map Piece.text = words word := by
        simp [wordPiece, Function.comp_def]
      rw [text, pieces, spelled, joinWith_words listed]
  | name | number | string | mark => rfl

/-! ## Compound keywords -/

theorem exists_of_startWith {ls : List Lexeme} {words : List String} (long : 2 ≤ words.length)
    (h : Lexeme.startWith words ls = true) :
    ∃ first second rest, ls = first :: second :: rest ∧
      first.token.keyword? = words.head? ∧ second.token.keyword? = words.tail.head? := by
  match words, ls with
  | [], _ | [_], _ => simp at long
  | _ :: _ :: _, [] | _ :: _ :: _, [_] => simp [Lexeme.startWith] at h
  | a :: b :: _, first :: second :: rest =>
      simp only [Lexeme.startWith, Bool.and_eq_true, Token.isKeyword_iff] at h
      exact ⟨first, second, rest, rfl, by simp [h.1, Token.keyword?], by simp [h.2.1, Token.keyword?]⟩

theorem two_le_length {words : List String} (listed : words ∈ compoundKeywords) :
    2 ≤ words.length := by
  have long : ∀ words ∈ compoundKeywords, 2 ≤ words.length := by decide
  exact long words listed

/-- Whether a text does not go on with a word that completes a longer keyword. -/
def Closed (ls : List Lexeme) : Prop :=
  ∀ l ∈ ls.head?, ∀ word ∈ closers, l.token.keyword? ≠ some word

/-- A keyword of one word stands alone before anything but the words that complete it. -/
theorem compound?_single {word : String} (listed : word ∈ keywords) (single : words word = [word])
    {rest : List Lexeme} (closed : Closed rest) :
    Lexeme.compound? ((wordPiece word).lexeme :: rest) = none := by
  have completed : ∀ compound ∈ compoundKeywords,
      compound.head? = some word → compound.tail.head? ∈ closers.map some := by
    rcases (worded_of_mem listed).2.1 with ⟨_, completed⟩ | ⟨length, _⟩
    · exact completed
    · rw [single] at length
      cases length
  refine List.find?_eq_none.mpr ?_
  intro compound member starts
  obtain ⟨first, second, rest, whole, firstWord, secondWord⟩ :=
    exists_of_startWith (two_le_length member) starts
  obtain ⟨rfl, rfl⟩ := List.cons.inj whole
  obtain ⟨closer, one, next⟩ :=
    List.mem_map.mp (completed compound member firstWord.symm)
  exact closed second rfl closer one (secondWord.trans next.symm)

theorem compound?_pair {a b : String} (listed : joinWith " " [a, b] ∈ keywords)
    (member : [a, b] ∈ compoundKeywords) (rest : List Lexeme) :
    Lexeme.compound? ((wordPiece a).lexeme :: (wordPiece b).lexeme :: rest) = some [a, b] := by
  have only : ∀ pair ∈ compoundKeywords, joinWith " " pair ∈ keywords →
      ∀ compound ∈ compoundKeywords, compound.head? = pair.head? →
        compound.tail.head? = pair.tail.head? → compound = pair := by
    decide +kernel
  have starts : Lexeme.startWith [a, b]
      ((wordPiece a).lexeme :: (wordPiece b).lexeme :: rest) = true := by
    simp [Lexeme.startWith, wordPiece, Piece.lexeme, Token.isKeyword]
  cases found : Lexeme.compound? ((wordPiece a).lexeme :: (wordPiece b).lexeme :: rest) with
  | none => exact absurd starts (List.find?_eq_none.mp found [a, b] member)
  | some compound =>
      have among := List.mem_of_find?_eq_some found
      obtain ⟨first, second, more, whole, firstWord, secondWord⟩ :=
        exists_of_startWith (two_le_length among)
          (List.find?_some (p := (Lexeme.startWith · _)) found)
      obtain ⟨rfl, rest⟩ := List.cons.inj whole
      obtain ⟨rfl, rfl⟩ := List.cons.inj rest
      rw [only [a, b] member listed compound among firstWord.symm secondWord.symm]

theorem mergeCompounds_keyword {word : String} (listed : word ∈ keywords) {rest : List Lexeme}
    (closed : Closed rest) :
    Lexeme.mergeCompounds ((keyword word listed).pieces.map Piece.lexeme ++ rest) =
      (keyword word listed).lexeme :: Lexeme.mergeCompounds rest := by
  have spelling := joinWith_words listed
  rcases words_cases listed with single | ⟨a, b, spelled, member⟩
  · have alone := compound?_single listed single closed
    simp only [pieces, single, List.map_cons, List.map_nil, List.singleton_append]
    rw [Lexeme.mergeCompounds, alone]
    rfl
  · rw [spelled] at spelling
    have found := compound?_pair (spelling.symm ▸ listed) member rest
    have merged : Lexeme.ofCompound [a, b] [(wordPiece a).lexeme, (wordPiece b).lexeme] =
        (keyword word listed).lexeme := by
      simp [Lexeme.ofCompound, wordPiece, Piece.lexeme, lexeme, spelling]
    simp only [pieces, spelled, List.map_cons, List.map_nil, List.cons_append, List.nil_append]
    rw [Lexeme.mergeCompounds, found, ← merged]
    rfl

/-- The lexemes of phrases before compounds are merged. -/
def lexemes (phrases : List Phrase) : List Lexeme :=
  phrases.flatMap fun phrase => phrase.pieces.map Piece.lexeme

/-- Phrases that are read as one lexeme each. -/
def Fit (phrases : List Phrase) : Prop :=
  Lexeme.mergeCompounds (lexemes phrases) = phrases.map lexeme

def Plain (phrase : Phrase) : Prop :=
  phrase.lexeme.token.keyword? = none

theorem Plain.pieces_eq {phrase : Phrase} (plain : phrase.Plain) :
    phrase.pieces.map Piece.lexeme = [phrase.lexeme] := by
  cases phrase with
  | keyword => simp [Plain, lexeme, Token.keyword?] at plain
  | name | number | string | mark => rfl

theorem Plain.fit_append {phrase : Phrase} (plain : phrase.Plain) {before after : List Phrase}
    (fit : Fit before) (fitAfter : Fit after) : Fit (before ++ phrase :: after) := by
  have split : lexemes (before ++ phrase :: after) =
      lexemes before ++ phrase.lexeme :: lexemes after := by
    simp [lexemes, plain.pieces_eq]
  rw [Fit, split, Lexeme.mergeCompounds_append plain, fit, fitAfter, List.map_append, List.map_cons]

/-- A keyword completes a longer one only if it is `INDEX`. -/
theorem closed_lexemes {phrases : List Phrase}
    (h : ∀ phrase ∈ phrases, phrase.lexeme.token ≠ .keyword "INDEX") : Closed (lexemes phrases) := by
  intro l head closer listed closes
  cases phrases with
  | nil => cases head
  | cons phrase phrases =>
      rw [List.forall_mem_cons] at h
      by_cases plain : phrase.Plain
      · simp only [lexemes, List.flatMap_cons, plain.pieces_eq, List.singleton_append,
          List.head?_cons, Option.mem_some_iff] at head
        subst head
        cases plain.symm.trans closes
      · cases phrase with
        | name | number | string | mark => exact absurd rfl plain
        | keyword word member =>
            have other : word ≠ "INDEX" := fun index => h.1 (congrArg Token.keyword index)
            obtain ⟨opener, first, unlisted⟩ := (Option.any_eq_true _ _).mp
              ((worded_of_mem member).2.2.1 other)
            obtain ⟨more, spelled⟩ := List.head?_eq_some_iff.mp first
            simp only [lexemes, List.flatMap_cons, pieces, spelled, List.map_cons,
              List.cons_append, List.head?_cons, Option.mem_some_iff] at head
            subst head
            cases closes
            simp [listed] at unlisted

theorem mergeCompounds_cons (phrase : Phrase) {rest : List Lexeme} (closed : Closed rest) :
    Lexeme.mergeCompounds (phrase.pieces.map Piece.lexeme ++ rest) =
      phrase.lexeme :: Lexeme.mergeCompounds rest := by
  by_cases plain : phrase.Plain
  · have merged := Lexeme.mergeCompounds_append plain [] rest
    rw [plain.pieces_eq]
    simpa [Lexeme.mergeCompounds] using merged
  · cases phrase with
    | name | number | string | mark => exact absurd rfl plain
    | keyword word listed => exact mergeCompounds_keyword listed closed

/-- Phrases with `INDEX` at their beginning at most are read as one lexeme each. -/
theorem fit_of_tail {phrases : List Phrase}
    (h : ∀ later ∈ phrases.tail, later.lexeme.token ≠ .keyword "INDEX") : Fit phrases := by
  induction phrases with
  | nil => simp [Fit, lexemes, Lexeme.mergeCompounds]
  | cons phrase phrases ih =>
      rw [List.tail_cons] at h
      have later : Lexeme.mergeCompounds (lexemes phrases) = phrases.map lexeme :=
        ih fun next member => h next (List.mem_of_mem_tail member)
      have merged := mergeCompounds_cons phrase (closed_lexemes h)
      rwa [later] at merged

end Phrase

/-! ## Reading phrases -/

theorem joinWith_append (separator : String) {xs ys : List String} (hx : xs ≠ []) (hy : ys ≠ []) :
    joinWith separator (xs ++ ys) = joinWith separator xs ++ separator ++ joinWith separator ys := by
  induction xs with
  | nil => contradiction
  | cons x xs ih =>
      obtain ⟨y, ys, rfl⟩ := List.exists_cons_of_ne_nil hy
      cases xs with
      | nil => simp [joinWith]
      | cons next xs =>
          calc
            joinWith separator (x :: next :: xs ++ y :: ys)
            _ = x ++ separator ++ joinWith separator (next :: xs ++ y :: ys) := rfl
            _ = x ++ separator ++ joinWith separator (next :: xs) ++ separator ++
                  joinWith separator (y :: ys) := by
                rw [ih (List.cons_ne_nil _ _)]
                simp only [String.append_assoc]

theorem Phrase.pieces_ne_nil (phrase : Phrase) : phrase.pieces ≠ [] := by
  cases phrase with
  | keyword word listed =>
      rcases words_cases listed with single | ⟨a, b, pair, _⟩
      · simp [pieces, single]
      · simp [pieces, pair]
  | name | number | string | mark => exact List.cons_ne_nil _ _

theorem written_eq_joinWith (phrases : List Phrase) :
    written phrases = joinWith " " ((phrases.flatMap Phrase.pieces).map Piece.text) := by
  induction phrases with
  | nil => rfl
  | cons phrase phrases ih =>
      cases phrases with
      | nil => simp [written, joinWith, phrase.text_eq_joinWith]
      | cons next phrases =>
          have first : phrase.pieces.map Piece.text ≠ [] := by simpa using phrase.pieces_ne_nil
          have later : ((next :: phrases).flatMap Phrase.pieces).map Piece.text ≠ [] := by
            simp [next.pieces_ne_nil]
          rw [List.flatMap_cons, List.map_append, joinWith_append " " first later, ← ih,
            ← phrase.text_eq_joinWith]
          rfl

theorem tokenize_written {phrases : List Phrase} (fit : Phrase.Fit phrases) :
    ∃ ls, Lexeme.tokenize (written phrases) = .ok ls ∧
      ls.map (Lexeme.relocate fun _ => 0) = phrases.map Phrase.lexeme := by
  have whole : ∀ p ∈ phrases.flatMap Phrase.pieces, p.Whole := by
    intro p member
    obtain ⟨phrase, _, piece⟩ := List.mem_flatMap.mp member
    exact Phrase.whole_of_mem piece
  obtain ⟨ls, read, places⟩ := Piece.scanFrom_joinWith whole
  refine ⟨Lexeme.mergeCompounds ls, ?_, ?_⟩
  · simp only [Lexeme.tokenize, written_eq_joinWith, read]
  · rw [← Lexeme.mergeCompounds_relocate, places, List.map_flatMap]
    exact fit

theorem chunks_lexemes (phrases : List Phrase) :
    Script.chunks (phrases.map Phrase.lexeme) = [phrases.map Phrase.lexeme] := by
  refine Script.chunks_of_uncut (List.forall_mem_map.mpr fun phrase _ => ?_)
  cases phrase with
  | mark c listed =>
      have marks : ∀ c ∈ ['(', ',', ')'], (Token.punct c).isPunct ';' = false := by
        simp [Token.isPunct]
      exact marks c listed
  | keyword | name | number | string => rfl

/-- A statement that is read from the lexemes of phrases is read from their text. -/
theorem parse_written {phrases : List Phrase} (fit : Phrase.Fit phrases) {s : Statement}
    (read : (Cursor.ofSlice (phrases.map Phrase.lexeme)).statement = .ok (some s)) :
    Script.parse (written phrases) = .ok [s] := by
  obtain ⟨ls, tokens, places⟩ := tokenize_written fit
  -- What is read does not depend on positions, so the lexemes may stand at zero.
  have moved := Script.statements_relocate (fun _ => 0) (Script.chunks ls)
  rw [← Script.chunks_relocate, places, chunks_lexemes] at moved
  simp only [Script.parse, tokens]
  cases found : Script.statements (Script.chunks ls) with
  | error e =>
      rw [found, Script.statements, read] at moved
      cases moved
  | ok statements =>
      rw [found, Script.statements, read] at moved
      exact moved.symm

end Canonical

end TableShift
