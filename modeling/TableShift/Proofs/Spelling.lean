import TableShift.Proofs.TokenShapes
import TableShift.Sql.Script

/-! # How lexemes are spelled

A lexeme keeps its spelling beside its token. The spelling of an identifier is its name,
and a keyword is a word of the vocabulary that starts with a letter in either form, so no
keyword is ever taken for a number.
-/

namespace TableShift

/-! ## Texts that start with a letter -/

/-- Whether a text starts with an ASCII letter. -/
def startsWithLetter (s : String) : Bool :=
  s.toList.head?.any Char.isAlpha

theorem isAlpha_of_isAlpha_toUpper {c : Char} (h : c.toUpper.isAlpha = true) :
    c.isAlpha = true := by
  unfold Char.toUpper at h
  split at h
  next lower =>
    have small : c.isLower = true :=
      Bool.and_eq_true_iff.mpr ⟨decide_eq_true lower.1, decide_eq_true lower.2⟩
    exact Bool.or_eq_true_iff.mpr (.inr small)
  next => exact h

theorem startsWithLetter_of_upperAscii {s : String} (h : startsWithLetter (upperAscii s) = true) :
    startsWithLetter s = true := by
  simp only [startsWithLetter, upperAscii, String.toList_ofList, List.head?_map] at h
  cases first : s.toList.head? with
  | none => simp [first] at h
  | some c =>
      rw [first] at h
      simpa [startsWithLetter, first] using isAlpha_of_isAlpha_toUpper h

theorem startsWithLetter_joinWith (separator : String) {s : String} (rest : List String)
    (h : startsWithLetter s = true) : startsWithLetter (joinWith separator (s :: rest)) = true := by
  cases rest with
  | nil => exact h
  | cons next rest =>
      cases chars : s.toList with
      | nil => simp [startsWithLetter, chars] at h
      | cons c cs => simpa [startsWithLetter, joinWith, chars] using h

theorem exists_letter {s : String} (h : startsWithLetter s = true) :
    ∃ c cs, s.toList = c :: cs ∧ c.isAlpha = true := by
  cases chars : s.toList with
  | nil => simp [startsWithLetter, chars] at h
  | cons c cs => exact ⟨c, cs, rfl, by simpa [startsWithLetter, chars] using h⟩

theorem toNat_of_isAlpha {c : Char} (h : c.isAlpha = true) :
    65 ≤ c.toNat ∧ c.toNat ≤ 90 ∨ 97 ≤ c.toNat ∧ c.toNat ≤ 122 := by
  have letter : (c.isUpper || c.isLower) = true := h
  rcases Bool.or_eq_true_iff.mp letter with upper | lower
  · obtain ⟨least, most⟩ := of_decide_eq_true upper
    exact .inl ⟨UInt32.le_iff_toNat_le.mp least, UInt32.le_iff_toNat_le.mp most⟩
  · obtain ⟨least, most⟩ := Bool.and_eq_true_iff.mp lower
    exact .inr ⟨UInt32.le_iff_toNat_le.mp (of_decide_eq_true least),
      UInt32.le_iff_toNat_le.mp (of_decide_eq_true most)⟩

theorem isBlank_of_isAlpha {c : Char} (h : c.isAlpha = true) : isBlank c = false := by
  have letter := toNat_of_isAlpha h
  simp only [isBlank, Bool.or_eq_false_iff, Bool.and_eq_false_iff, decide_eq_false_iff_not,
    beq_eq_false_iff_ne]
  omega

theorem digitValue?_of_isAlpha {c : Char} (h : c.isAlpha = true) : digitValue? 10 c = none := by
  have letter := toNat_of_isAlpha h
  have noDigit : c.isDigit = false := by
    simp only [Char.isDigit, Bool.and_eq_false_iff, decide_eq_false_iff_not,
      UInt32.le_iff_toNat_le]
    change ¬ 48 ≤ c.toNat ∨ ¬ c.toNat ≤ 57
    omega
  simp only [digitValue?, noDigit]
  grind

theorem trimChars_of_isAlpha {c : Char} (h : c.isAlpha = true) (cs : List Char) :
    ∃ rest, trimChars (c :: cs) = c :: rest := by
  have visible := isBlank_of_isAlpha h
  have ended : (cs.reverse ++ [c]).dropWhile isBlank = cs.reverse.dropWhile isBlank ++ [c] := by
    rw [List.dropWhile_append]
    split
    next all => simp [visible, List.isEmpty_iff.mp all]
    next => rfl
  refine ⟨(cs.reverse.dropWhile isBlank).reverse, ?_⟩
  simp [trimChars, visible, ended]

theorem length?_trim_of_letter {s : String} (h : startsWithLetter s = true) :
    length? (trim s) = none := by
  obtain ⟨c, cs, chars, letter⟩ := exists_letter h
  obtain ⟨rest, trimmed⟩ := trimChars_of_isAlpha letter cs
  have unsigned : c ≠ '+' := by
    rintro rfl
    simp at letter
  simp [length?, trim, chars, trimmed, unsigned?, unsigned, digitsValue?,
    digitValue?_of_isAlpha letter]

/-! ## Spellings of tokens -/

/-- The spellings that go with a token. -/
inductive Spells : Token → String → Prop where
  | identifier (name : String) : Spells (.identifier name) name
  | keyword {word spelling : String} (lettered : startsWithLetter word = true)
      (spelled : startsWithLetter spelling = true) : Spells (.keyword word) spelling
  | literal (value : Value) (spelling : String) : Spells (.literal value) spelling
  | punct (mark : Char) (spelling : String) : Spells (.punct mark) spelling

theorem startsWithLetter_of_isKeywordWord {word : String} (h : isKeywordWord word = true) :
    startsWithLetter word = true := by
  have plain : ∀ word ∈ plainKeywords, startsWithLetter word = true := by decide +kernel
  have types : ∀ method ∈ columnMethods, startsWithLetter (upperAscii method.sqlType) = true := by
    decide +kernel
  simp only [isKeywordWord, Bool.or_eq_true, List.contains_iff_mem, ColumnMethod.isKnown,
    Option.isSome_iff_exists] at h
  rcases h with listed | ⟨method, found⟩
  · exact plain word listed
  · have same := List.find?_some found
    simp only [sameFolded, beq_iff_eq] at same
    apply startsWithLetter_of_upperAscii
    rw [← same]
    exact types method (List.mem_of_find?_eq_some found)

theorem spells_wordToken (word : String) : Spells (Scan.wordToken word) word := by
  simp only [Scan.wordToken]
  split
  next charset =>
    refine .keyword (by decide) (startsWithLetter_of_upperAscii ?_)
    rw [charset]
    decide
  next =>
    split
    next listed =>
      have lettered := startsWithLetter_of_isKeywordWord listed
      exact .keyword lettered (startsWithLetter_of_upperAscii lettered)
    next => exact .identifier word

theorem spells_of_token? {cs : List Char} {s : Scan} (h : Scan.token? cs = some s) :
    Spells s.token s.raw := by
  rcases Scan.shape_of_token? h with name | text | digits | number | word | mark
  · unfold Scan.backQuoted? at name
    split at name
    · contradiction
    · split at name
      · split at name
        · contradiction
        · cases name
          exact .identifier _
      · contradiction
  · unfold Scan.stringLiteral at text
    split at text
    · cases text
      exact .literal _ _
    · contradiction
    · contradiction
  · unfold Scan.radixLiteral at digits
    split at digits
    · contradiction
    · split at digits
      · contradiction
      · split at digits
        · cases digits
          exact .literal _ _
        · contradiction
        · contradiction
  · simp only [Scan.number?] at number
    split at number
    · contradiction
    · cases number
      exact .literal _ _
  · simp only [Scan.word?] at word
    split at word
    · contradiction
    · rw [Option.some.injEq] at word
      subst word
      dsimp only
      exact spells_wordToken _
  · unfold Scan.mark? at mark
    split at mark
    · contradiction
    · split at mark
      · cases mark
        exact .punct _ _
      · contradiction

namespace Lexeme

/-- A lexeme whose spelling goes with its token. -/
def Spelled (l : Lexeme) : Prop :=
  Spells l.token l.raw

section Everywhere

variable {P : Lexeme → Prop}

theorem forall_of_scanFrom
    (scanned : ∀ offset gap cs s, Scan.token? cs = some s → P (ofScan offset gap s))
    {offset : Nat} {cs : List Char} {ls : List Lexeme} (h : scanFrom offset cs = .ok ls) :
    ∀ l ∈ ls, P l := by
  induction size : cs.length using Nat.strongRecOn generalizing offset cs ls with
  | ind _ ih =>
      rcases exists_of_scanFrom h with ⟨-, rfl⟩ | ⟨s, later, -, found, read, rfl⟩
      · simp
      · have shorter := Nat.lt_of_lt_of_le (Scan.length_lt_of_token? found)
          (Gap.length_leading_le cs)
        rw [List.forall_mem_cons]
        exact ⟨scanned _ _ _ _ found, ih _ (size ▸ shorter) read rfl⟩

theorem forall_of_mergeCompounds
    (compound : ∀ words l ls, compound? (l :: ls) = some words → P l →
      P (ofCompound words ((l :: ls).take words.length)))
    {ls : List Lexeme} (h : ∀ l ∈ ls, P l) : ∀ l ∈ mergeCompounds ls, P l := by
  fun_induction mergeCompounds ls with
  | case1 => exact h
  | case2 l ls words found ih =>
      rw [List.forall_mem_cons] at h ⊢
      exact ⟨compound _ _ _ found h.1, ih fun l member => h.2 l (List.mem_of_mem_drop member)⟩
  | case3 l ls _ ih =>
      rw [List.forall_mem_cons] at h ⊢
      exact ⟨h.1, ih h.2⟩

/-- What holds of every scanned token, and of a compound if it holds of its first word, holds
    of every lexeme of a script. -/
theorem forall_of_tokenize
    (scanned : ∀ offset gap cs s, Scan.token? cs = some s → P (ofScan offset gap s))
    (compound : ∀ words l ls, compound? (l :: ls) = some words → P l →
      P (ofCompound words ((l :: ls).take words.length)))
    {script : String} {ls : List Lexeme} (h : tokenize script = .ok ls) : ∀ l ∈ ls, P l := by
  unfold tokenize at h
  split at h
  next read =>
    cases h
    exact forall_of_mergeCompounds compound (forall_of_scanFrom scanned read)
  next => contradiction

end Everywhere

theorem spelled_ofCompound {words : List String} {l : Lexeme} {ls : List Lexeme}
    (h : compound? (l :: ls) = some words) (spelled : l.Spelled) :
    (ofCompound words ((l :: ls).take words.length)).Spelled := by
  have lettered : ∀ words ∈ compoundKeywords, startsWithLetter (joinWith " " words) = true := by
    decide +kernel
  have starts := List.find?_some (p := (startWith · (l :: ls))) h
  refine .keyword (lettered words (List.mem_of_find?_eq_some h)) ?_
  cases words with
  | nil => exact absurd (length_pos_of_compound? h) (by simp)
  | cons word words =>
      have keyword : l.token = .keyword word := by
        simp only [startWith, Bool.and_eq_true] at starts
        exact Token.isKeyword_iff.mp starts.1
      rw [List.length_cons, List.take_succ_cons]
      apply startsWithLetter_joinWith
      unfold Spelled at spelled
      rw [keyword] at spelled
      cases spelled with
      | keyword _ spelled => exact spelled

theorem spelled_of_tokenize {script : String} {ls : List Lexeme} (h : tokenize script = .ok ls) :
    ∀ l ∈ ls, l.Spelled :=
  forall_of_tokenize (fun _ _ _ _ => spells_of_token?) (fun _ _ _ => spelled_ofCompound) h

/-! ## Words of the vocabulary -/

/-- A keyword or a sequence of keywords that counts as one. -/
def IsVocabulary (word : String) : Prop :=
  isKeywordWord word = true ∨ ∃ words ∈ compoundKeywords, word = joinWith " " words

theorem isVocabulary_of_wordToken {spelling word : String}
    (h : Scan.wordToken spelling = .keyword word) : IsVocabulary word := by
  simp only [Scan.wordToken] at h
  split at h
  · cases h
    exact .inr ⟨["CHARACTER", "SET"], by decide, rfl⟩
  · split at h
    next listed =>
      cases h
      exact .inl listed
    next => contradiction

theorem isVocabulary_of_reads {slice : List Char} {token : Token} {raw word : String}
    (h : Scan.Reads slice token raw) (spelled : token = .keyword word) : IsVocabulary word := by
  cases h with
  | word => exact isVocabulary_of_wordToken spelled
  | name | string | radix | number | mark => contradiction

theorem isVocabulary_of_tokenize {script : String} {ls : List Lexeme}
    (h : tokenize script = .ok ls) :
    ∀ l ∈ ls, ∀ word, l.token = .keyword word → IsVocabulary word := by
  refine forall_of_tokenize (fun _ _ _ _ found _ spelled => ?_) ?_ h
  · exact isVocabulary_of_reads (Scan.reads_of_token? found) spelled
  · intro words l ls found _ word spelled
    cases spelled
    exact .inr ⟨words, List.mem_of_find?_eq_some found, rfl⟩

end Lexeme

end TableShift
