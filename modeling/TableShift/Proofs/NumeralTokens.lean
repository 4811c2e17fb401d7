import Mathlib.Data.List.Chain
import TableShift.Proofs.Numerals
import TableShift.Proofs.Squeezing

/-! # Reading numerals

The lexer reads only some numerals as one token: those that start with digits and have no
exponent, as a number, and those whose digits are followed at once by an exponent without a
sign, as a word. Of the others the first token is a beginning: the digits before the point, the
digits with the letter of the exponent, or a sign or a point alone.
-/

namespace TableShift

/-! ## Tokens of numerals -/

theorem isKeywordWord_of_numeral {word : String} (h : ∀ c ∈ word.toList, isNumeralChar c = true) :
    isKeywordWord word = false := by
  have plain : ∀ word ∈ plainKeywords, word.toList.all isNumeralChar = false := by
    decide +kernel
  have types : ∀ method ∈ columnMethods,
      (upperAscii method.sqlType).toList.all isNumeralChar = false := by
    decide +kernel
  rw [Bool.eq_false_iff]
  intro listed
  simp only [isKeywordWord, Bool.or_eq_true, List.contains_iff_mem, ColumnMethod.isKnown,
    Option.isSome_iff_exists] at listed
  rcases listed with listed | ⟨method, found⟩
  · exact Bool.false_ne_true ((plain word listed).symm.trans (List.all_eq_true.mpr h))
  · have same := List.find?_some found
    simp only [sameFolded, beq_iff_eq] at same
    have other := types method (List.mem_of_find?_eq_some found)
    rw [same, List.all_eq_true.mpr (isNumeralChar_upperAscii h)] at other
    cases other

namespace Scan

theorem wordToken_of_numeral {word : String} (h : ∀ c ∈ word.toList, isNumeralChar c = true) :
    wordToken word = .identifier word := by
  have upper := isNumeralChar_upperAscii h
  have other : upperAscii word ≠ "CHARSET" := by
    intro same
    exact absurd (upper 'C' (by rw [same]; decide)) (by decide)
  simp [wordToken, other, isKeywordWord_of_numeral upper]

theorem isWordChar_of_isDigit {c : Char} (h : c.isDigit = true) : isWordChar c = true := by
  obtain ⟨least, most⟩ := toNat_of_isDigit h
  have listed : isAlphanumeric c = true := by
    rw [isAlphanumeric, alphanumericRanges, inRanges, if_neg (by omega), if_pos most]
  simp [isWordChar, listed]

end Scan

/-- The tokens that mean nothing to a column besides its default: words that are no keywords,
    literals, and marks that are no parentheses, commas or semicolons. -/
inductive Token.Neutral : Token → Prop where
  | identifier (name : String) : Neutral (.identifier name)
  | literal (value : Value) : Neutral (.literal value)
  | mark {c : Char} (listed : c ∈ ['+', '-', '.']) : Neutral (.punct c)

theorem Token.Neutral.keyword?_eq_none {token : Token} (h : token.Neutral) :
    token.keyword? = none := by
  cases h <;> rfl

theorem Token.Neutral.isPunct_eq_false {token : Token} (h : token.Neutral) {c : Char}
    (other : c ∉ ['+', '-', '.']) : token.isPunct c = false := by
  cases h with
  | identifier | literal => rfl
  | mark listed =>
      have different : _ ≠ c := fun same => other (same ▸ listed)
      simpa [isPunct] using different

namespace Scan

theorem neutral_of_reads {slice : List Char} {token : Token} {raw : String}
    (h : Reads slice token raw) (numeral : ∀ c ∈ slice, isNumeralChar c = true) :
    token.Neutral := by
  cases h with
  | name plain => exact .identifier _
  | string quoted => exact .literal _
  | radix announced quoted => exact .literal _
  | number numeral => exact .literal _
  | word nonempty letters =>
      rw [wordToken_of_numeral (by simpa using numeral)]
      exact .identifier _
  | @mark c listed =>
      have unmarked : marks.all (fun c => !c.isDigit && !isExponentMark c) = true := by decide
      have neither : c.isDigit = false ∧ isExponentMark c = false := by
        simpa using List.all_eq_true.mp unmarked c listed
      rcases isNumeralChar_cases (numeral c List.mem_cons_self) with digit | letter | mark
      · rw [neither.1] at digit
        contradiction
      · rw [neither.2] at letter
        contradiction
      · exact .mark mark

theorem token?_of_numeral {c : Char} (h : isNumeralChar c = true) (cs : List Char) :
    token? (c :: cs) = (number? (c :: cs)).or ((word? (c :: cs)).or (mark? (c :: cs))) := by
  have plain : c ≠ backQuote ∧ c ≠ '\'' ∧ c ≠ '"' := by
    refine ⟨?_, ?_, ?_⟩
    all_goals
      rintro rfl
      revert h
      decide
  have unannounced : radixOf? c = none := by
    have letters : ['b', 'B', 'x', 'X'].all (!isNumeralChar ·) = true := by decide
    have other (d : Char) (listed : d ∈ ['b', 'B', 'x', 'X']) : c ≠ d := by
      rintro rfl
      have unlisted := List.all_eq_true.mp letters c listed
      rw [h] at unlisted
      contradiction
    simp [radixOf?, other]
  exact token?_of_first plain unannounced cs

theorem exists_token? {cs : List Char} (nonempty : cs ≠ [])
    (numeral : ∀ c ∈ cs, isNumeralChar c = true) : ∃ s, token? cs = some s ∧ s.token.Neutral := by
  obtain ⟨c, cs, rfl⟩ := List.exists_cons_of_ne_nil nonempty
  have first := numeral c List.mem_cons_self
  have some : (token? (c :: cs)).isSome = true := by
    rw [token?_of_numeral first]
    simp only [Option.isSome_or, Bool.or_eq_true]
    right
    rcases isNumeralChar_cases first with digit | letter | mark
    · left
      simp [word?, isWordChar_of_isDigit digit]
    · left
      simp [word?, (of_isExponentMark letter).2.2]
    · have marked : ['+', '-', '.'].all marks.contains = true := by decide
      right
      rw [mark?, if_pos (List.all_eq_true.mp marked c mark)]
      rfl
  obtain ⟨s, found⟩ := Option.isSome_iff_exists.mp some
  refine ⟨s, found, neutral_of_reads (reads_of_token? found) ?_⟩
  have split := (splits_of_token? found).1
  exact fun c member => numeral c (split ▸ List.mem_append_left _ member)

end Scan

/-- What may stand behind a default at the end of a definition: a closing parenthesis or
    nothing. -/
inductive Closing : List Char → Prop where
  | text : Closing []
  | body : Closing [')']

theorem Scan.token?_closing {closing : List Char} (closes : Closing closing) {cs : List Char}
    {s : Scan} (h : token? cs = some s) : token? (cs ++ closing) = some (s.followedBy closing) := by
  cases closes with
  | text => simpa [followedBy] using h
  | body => exact token?_followed (by decide) [] h

theorem Gap.opens_numeral {cs closing : List Char} (nonempty : cs ≠ [])
    (numeral : ∀ c ∈ cs, isNumeralChar c = true) (dashes : ¬ ['-', '-'] <:+: cs)
    (closes : Closing closing) : opens (cs ++ closing) = false := by
  obtain ⟨c, cs, rfl⟩ := List.exists_cons_of_ne_nil nonempty
  have other (d : Char) (h : isNumeralChar d = false) : c ≠ d := by
    rintro rfl
    rw [numeral c List.mem_cons_self] at h
    contradiction
  refine opens_cons_eq_false.mpr ⟨?_, other '#' (by decide), ?_, ?_⟩
  · simp [isSpace, other ' ' (by decide), other '\t' (by decide), other '\r' (by decide),
      other '\n' (by decide)]
  · rintro ⟨rfl, second⟩
    cases cs with
    | nil => cases closes <;> simp at second
    | cons d cs =>
        have second : d = '-' := by simpa using second
        exact dashes (second ▸ ⟨[], cs, rfl⟩)
  · exact fun slash => other '/' (by decide) slash.1

namespace Lexeme

/-- The rest of a numeral is read as tokens that mean nothing to a column. -/
theorem scanFrom_numeral {cs closing : List Char} (closes : Closing closing)
    (numeral : ∀ c ∈ cs, isNumeralChar c = true) (dashes : ¬ ['-', '-'] <:+: cs) (offset : Nat) :
    ∃ ls last, scanFrom offset (cs ++ closing) = .ok (ls ++ last) ∧
      (∀ l ∈ ls, l.token.Neutral) ∧ last.map token = closing.map .punct := by
  induction size : cs.length using Nat.strongRecOn generalizing cs offset with
  | ind _ ih =>
      by_cases ended : cs = []
      · subst ended
        cases closes with
        | text => exact ⟨[], [], Canonical.Piece.scanFrom_nil offset, by simp, rfl⟩
        | body =>
            have read := scanFrom_of_token offset (Gap.leading_of_closed rfl) rfl
              (rfl : Scan.token? [')'] = some ⟨.punct ')', ")", [')'], []⟩)
            rw [Canonical.Piece.scanFrom_nil] at read
            exact ⟨[], _, read, by simp, rfl⟩
      · have opens := Gap.opens_numeral ended numeral dashes closes
        obtain ⟨s, found, neutral⟩ := Scan.exists_token? ended numeral
        have ends : s.rest <:+ cs := ⟨s.taken, (Scan.splits_of_token? found).1⟩
        have read := scanFrom_of_token offset (Gap.leading_of_closed opens)
          (Gap.startsComment_of_closed opens) (Scan.token?_closing closes found)
        obtain ⟨ls, last, later, others, marks⟩ := ih s.rest.length
          (size ▸ Scan.length_lt_of_token? found)
          (fun c member => numeral c (ends.subset member))
          (fun pair => dashes (pair.trans ends.isInfix))
          (ofScan offset [] (s.followedBy closing)).stop rfl
        have rest : (s.followedBy closing).rest = s.rest ++ closing := rfl
        rw [rest, later] at read
        exact ⟨_ :: ls, last, read, List.forall_mem_cons.mpr ⟨neutral, others⟩, marks⟩

end Lexeme

/-! ## The first token of a numeral -/

theorem Scan.sign_append_digits {minus cs : List Char} (signed : minus = [] ∨ minus = ['-'])
    (unsigned : cs.head? ≠ some '-') : sign (minus ++ cs) = (minus, cs) := by
  rcases signed with rfl | rfl
  · cases cs with
    | nil => rfl
    | cons c cs =>
        have other : c ≠ '-' := by simpa using unsigned
        simp [sign, other]
  · rfl

/-- Digits before an exponent are no number of their own. -/
theorem Scan.number?_power {minus whole point : List Char} {mark : Char}
    (signed : minus = [] ∨ minus = ['-']) (nonempty : whole ≠ [])
    (digits : ∀ c ∈ whole, c.isDigit = true)
    (fractional : point = [] ∨ ∃ digits, point = '.' :: digits ∧ ∀ c ∈ digits, c.isDigit = true)
    (marked : isExponentMark mark = true) (more : List Char) :
    number? (minus ++ (whole ++ (point ++ mark :: more))) = none := by
  obtain ⟨noDigit, noPoint, word⟩ := of_isExponentMark marked
  have unsigned : (whole ++ (point ++ mark :: more)).head? ≠ some '-' := by
    obtain ⟨c, cs, rfl⟩ := List.exists_cons_of_ne_nil nonempty
    simpa using ne_of_isDigit (digits c List.mem_cons_self) rfl
  have split : fraction (point ++ mark :: more) = (point, mark :: more) ∧
      (point ++ mark :: more).takeWhile Char.isDigit = [] ∧
      (point ++ mark :: more).dropWhile Char.isDigit = point ++ mark :: more := by
    rcases fractional with rfl | ⟨digits, rfl, listed⟩
    · simp [fraction, noPoint, noDigit]
    · simp [fraction, List.takeWhile_append_of_pos listed, List.dropWhile_append_of_pos listed,
        noDigit]
  simp only [number?, sign_append_digits signed unsigned, List.takeWhile_append_of_pos digits,
    List.dropWhile_append_of_pos digits, split]
  simp [word]

namespace NumeralSyntax

variable (n : NumeralSyntax)

/-- A numeral that is one token: it starts with digits, and it has no exponent, or one
    without a sign directly behind digits without a sign. -/
def Plain : Prop :=
  n.whole ≠ [] ∧ ∀ s ∈ n.exponent, n.negative = false ∧ n.fraction = none ∧ s.sign = none

/-- What the first token of a numeral can be, with its characters. -/
inductive Leads : Token → List Char → Prop where
  | number (plain : n.Plain) : Leads (.literal (.number n.text)) n.chars
  | word {lead : List Char} (numeral : ∀ c ∈ lead, isNumeralChar c = true)
      (whole : lead = n.chars ↔ n.Plain) : Leads (.identifier (.ofList lead)) lead
  | mark {c : Char} (listed : c = '-' ∨ c = '.') (short : ¬ n.Plain) : Leads (.punct c) [c]

theorem token?_mark {c : Char} (listed : c = '-' ∨ c = '.') {cs : List Char}
    (unnumbered : Scan.number? (c :: cs) = none) :
    Scan.token? (c :: cs) = some ⟨.punct c, .ofList [c], [c], cs⟩ := by
  have mark : isNumeralChar c = true ∧ Scan.isWordChar c = false ∧ c ∈ Scan.marks := by
    rcases listed with rfl | rfl
    · decide
    · decide
  rw [Scan.token?_of_numeral mark.1, unnumbered, Scan.word?_eq_none mark.2.1]
  rw [Option.none_or, Option.none_or, Scan.mark?, if_pos (List.contains_iff_mem.mpr mark.2.2),
    String.singleton_eq_ofList]

theorem token?_word {lead rest : List Char} (nonempty : lead ≠ [])
    (letters : ∀ c ∈ lead, Scan.isWordChar c = true)
    (stops : rest.head?.any Scan.isWordChar = false)
    (numeral : ∀ c ∈ lead, isNumeralChar c = true)
    (unnumbered : Scan.number? (lead ++ rest) = none) :
    Scan.token? (lead ++ rest) = some ⟨.identifier (.ofList lead), .ofList lead, lead, rest⟩ := by
  have run : (lead ++ rest).takeWhile Scan.isWordChar = lead ∧
      (lead ++ rest).dropWhile Scan.isWordChar = rest := by
    rw [List.takeWhile_append_of_pos letters, List.dropWhile_append_of_pos letters]
    cases rest with
    | nil => simp
    | cons c rest =>
        have stops : Scan.isWordChar c = false := by simpa using stops
        simp [stops]
  have token : Scan.wordToken (.ofList lead) = .identifier (.ofList lead) :=
    Scan.wordToken_of_numeral (by simpa using numeral)
  have word : Scan.word? (lead ++ rest) =
      some ⟨.identifier (.ofList lead), .ofList lead, lead, rest⟩ := by
    simp [Scan.word?, run, nonempty, token]
  obtain ⟨c, cs, rfl⟩ := List.exists_cons_of_ne_nil nonempty
  rw [List.cons_append] at unnumbered word ⊢
  rw [Scan.token?_of_numeral (numeral c List.mem_cons_self), unnumbered, word]
  rfl

theorem exists_token_of_bare (bare : n.whole = []) :
    ∃ token lead rest, Scan.token? n.chars = some ⟨token, .ofList lead, lead, rest⟩ ∧
      n.Leads token lead := by
  have short : ¬ n.Plain := fun plain => plain.1 bare
  obtain ⟨digits, fraction, _⟩ := n.nonempty.resolve_left (by simp [bare])
  have point : n.point = '.' :: digits := by simp [point, Option.mem_def.mp fraction]
  rcases n.minus_cases with sign | sign
  · have chars : n.chars = '.' :: (digits ++ n.power) := by simp [chars, sign, bare, point]
    rw [chars]
    exact ⟨_, _, _, token?_mark (.inr rfl) (Scan.number?_eq_none (by decide) rfl _),
      .mark (.inr rfl) short⟩
  · have chars : n.chars = '-' :: '.' :: (digits ++ n.power) := by simp [chars, sign, bare, point]
    rw [chars]
    exact ⟨_, _, _, token?_mark (.inl rfl) rfl, .mark (.inl rfl) short⟩

theorem exists_token_of_word {lead rest : List Char} (split : n.chars = lead ++ rest)
    (unnumbered : Scan.number? n.chars = none) (nonempty : lead ≠ [])
    (letters : ∀ c ∈ lead, Scan.isWordChar c = true)
    (stops : rest.head?.any Scan.isWordChar = false)
    (ends : rest = [] ↔ n.Plain) :
    ∃ token lead rest, Scan.token? n.chars = some ⟨token, .ofList lead, lead, rest⟩ ∧
      n.Leads token lead := by
  have numeral : ∀ c ∈ lead, isNumeralChar c = true := fun c member =>
    n.isNumeralChar_of_mem c (split ▸ List.mem_append_left rest member)
  have whole : lead = n.chars ↔ n.Plain := by
    rw [split, List.self_eq_append_right, ends]
  rw [split] at unnumbered
  exact ⟨_, lead, rest, split ▸ token?_word nonempty letters stops numeral unnumbered,
    .word numeral whole⟩

theorem exists_token_of_power (whole : n.whole ≠ []) {s : ExponentSyntax}
    (given : n.exponent = some s) :
    ∃ token lead rest, Scan.token? n.chars = some ⟨token, .ofList lead, lead, rest⟩ ∧
      n.Leads token lead := by
  have power : n.power = s.mark :: (s.sign.toList ++ s.digits) := by
    simp [power, given, ExponentSyntax.chars]
  have unnumbered : Scan.number? n.chars = none := by
    rw [chars, power]
    exact Scan.number?_power n.minus_cases whole n.wholeDigits n.point_cases s.marked _
  have digit {c : Char} (h : c.isDigit = true) := Scan.isWordChar_of_isDigit h
  have marked := (Scan.of_isExponentMark s.marked).2.2
  cases negative : n.negative with
  | true =>
      have short : ¬ n.Plain := fun plain => by simpa [negative] using plain.2 s given
      have split : n.chars = '-' :: (n.whole ++ (n.point ++ n.power)) := by
        simp [chars, minus, negative]
      rw [split] at unnumbered ⊢
      exact ⟨_, _, _, token?_mark (.inl rfl) unnumbered, .mark (.inl rfl) short⟩
  | false =>
      cases fraction : n.fraction with
      | some digits =>
          have split : n.chars = n.whole ++ '.' :: (digits ++ n.power) := by
            simp [chars, minus, negative, point, fraction]
          have short : ¬ n.Plain := fun plain => by simpa [fraction] using plain.2 s given
          exact n.exists_token_of_word split unnumbered whole
            (fun c member => digit (n.wholeDigits c member)) rfl (iff_of_false (by simp) short)
      | none =>
          cases sign : s.sign with
          | some c =>
              have split : n.chars = (n.whole ++ [s.mark]) ++ c :: s.digits := by
                simp [chars, minus, negative, point, fraction, power, sign]
              have short : ¬ n.Plain := fun plain => by simpa [sign] using plain.2 s given
              have stops : Scan.isWordChar c = false := by
                rcases s.signed c sign with rfl | rfl
                · decide
                · decide
              refine n.exists_token_of_word split unnumbered (by simp) ?_ stops
                (iff_of_false (by simp) short)
              rw [List.forall_mem_append, List.forall_mem_singleton]
              exact ⟨fun c member => digit (n.wholeDigits c member), marked⟩
          | none =>
              have split : n.chars = (n.whole ++ s.mark :: s.digits) ++ [] := by
                simp [chars, minus, negative, point, fraction, power, sign]
              have plain : n.Plain := ⟨whole, by simp [given, negative, fraction, sign]⟩
              refine n.exists_token_of_word split unnumbered (by simp) ?_ rfl
                (iff_of_true rfl plain)
              rw [List.forall_mem_append, List.forall_mem_cons]
              exact ⟨fun c member => digit (n.wholeDigits c member), marked,
                fun c member => digit (s.listed c member)⟩

theorem exists_token :
    ∃ token lead rest, Scan.token? n.chars = some ⟨token, .ofList lead, lead, rest⟩ ∧
      n.Leads token lead := by
  by_cases bare : n.whole = []
  · exact n.exists_token_of_bare bare
  · cases given : n.exponent with
    | none =>
        have plain : n.Plain := ⟨bare, by simp [given]⟩
        have shape : IsNumeral n.chars := by
          refine ⟨n.minus, n.whole, n.point, ?_, n.minus_cases, bare, n.wholeDigits, n.point_cases⟩
          simp [chars, power, given]
        exact ⟨_, _, _, Scan.token?_numeral shape, .number plain⟩
    | some s => exact n.exists_token_of_power bare given

/-- No two dashes stand together in a numeral. -/
theorem undashed : ¬ ['-', '-'] <:+: n.chars := by
  have plain {cs : List Char} (h : ∀ c ∈ cs, c ≠ '-') : cs.IsChain fun a b => a ≠ '-' ∨ b ≠ '-' :=
    (List.pairwise_of_forall_mem_list fun a member _ _ => .inl (h a member)).isChain
  have digit {c : Char} (h : c.isDigit = true) : c ≠ '-' := Scan.ne_of_isDigit h rfl
  have mantissa : ∀ c ∈ n.whole ++ n.point, c ≠ '-' := by
    intro c member
    rcases n.isDigit_or_of_mem_mantissa member with isDigit | rfl
    · exact digit isDigit
    · decide
  have power : n.power.IsChain fun a b => a ≠ '-' ∨ b ≠ '-' := by
    cases given : n.exponent with
    | none => simp [power, given]
    | some s =>
        have mark : s.mark ≠ '-' := by
          intro dash
          have marked := s.marked
          rw [dash] at marked
          revert marked
          decide
        have digits : ∀ c ∈ s.digits, c ≠ '-' := fun c member => digit (s.listed c member)
        have split : n.power = (s.mark :: s.sign.toList) ++ s.digits := by
          simp [NumeralSyntax.power, given, ExponentSyntax.chars]
        rw [split, List.isChain_append]
        refine ⟨?_, plain digits, fun _ _ c first => .inr (digits c (List.mem_of_mem_head? first))⟩
        cases s.sign with
        | none => simp
        | some c => simp [mark]
  have chain : n.chars.IsChain fun a b => a ≠ '-' ∨ b ≠ '-' := by
    obtain ⟨first, rest, split, shape⟩ := n.exists_first
    have undashed : first ≠ '-' := by
      rcases shape with h | rfl
      · exact digit h
      · decide
    rw [chars, List.isChain_append]
    refine ⟨?_, ?_, ?_⟩
    · rcases n.minus_cases with given | given
      · simp [given]
      · simp [given]
    · rw [← List.append_assoc, List.isChain_append]
      exact ⟨plain mantissa, power,
        fun c last _ _ => .inl (mantissa c (List.mem_of_mem_getLast? last))⟩
    · rw [split]
      rintro _ _ _ ⟨⟩
      exact .inr undashed
  rintro ⟨front, back, split⟩
  rw [← split] at chain
  simpa using chain.left_of_append.right_of_append

/-- What a numeral is read as: its first token, and others that mean nothing to a column. -/
structure ReadAs (first : Lexeme) (ls : List Lexeme) : Prop where
  leads : ∃ lead, n.Leads first.token lead ∧ first.raw = .ofList lead
  neutral : ∀ l ∈ ls, l.token.Neutral

theorem exists_scanFrom {closing : List Char} (closes : Closing closing) (offset : Nat) :
    ∃ first ls last,
      Lexeme.scanFrom offset (' ' :: (n.chars ++ closing)) = .ok (first :: (ls ++ last)) ∧
      n.ReadAs first ls ∧ last.map Lexeme.token = closing.map .punct := by
  have nonempty : n.chars ≠ [] := by
    obtain ⟨c, cs, split, _⟩ := n.exists_first
    simp [chars, split]
  have opens := Gap.opens_numeral nonempty n.isNumeralChar_of_mem n.undashed closes
  have gap : Gap.leading (' ' :: (n.chars ++ closing)) = ([' '], n.chars ++ closing) := by
    rw [Gap.leading_cons_space rfl, Gap.leading_of_closed opens]
  obtain ⟨token, lead, rest, found, leads⟩ := n.exists_token
  have ends : rest <:+ n.chars := ⟨lead, (Scan.splits_of_token? found).1⟩
  have read := Lexeme.scanFrom_of_token offset gap (Gap.startsComment_of_closed opens)
    (Scan.token?_closing closes found)
  obtain ⟨ls, last, later, neutral, marks⟩ := Lexeme.scanFrom_numeral closes
    (fun c member => n.isNumeralChar_of_mem c (ends.subset member))
    (fun pair => n.undashed (pair.trans ends.isInfix))
    (Lexeme.ofScan offset [' ']
      (Scan.followedBy closing ⟨token, .ofList lead, lead, rest⟩)).stop
  have behind : (Scan.followedBy closing ⟨token, .ofList lead, lead, rest⟩).rest =
      rest ++ closing := rfl
  rw [behind, later] at read
  exact ⟨_, ls, last, read, ⟨⟨lead, leads, rfl⟩, neutral⟩, marks⟩

end NumeralSyntax

end TableShift
