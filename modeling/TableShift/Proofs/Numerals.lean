import TableShift.Proofs.CanonicalTokens

/-! # Numerals

A numeral is a sign or none, digits with a fraction or without, or a fraction alone, and an
exponent or none. A text is numeric exactly if it is a numeral between blanks. A default that
is quoted because it is numeric has no character in it that would end or change the quoted
text.
-/

namespace TableShift

/-! ## Characters of numerals -/

theorem toNat_of_isDigit {c : Char} (h : c.isDigit = true) : 48 ≤ c.toNat ∧ c.toNat ≤ 57 := by
  obtain ⟨least, most⟩ := Bool.and_eq_true_iff.mp h
  exact ⟨UInt32.le_iff_toNat_le.mp (of_decide_eq_true least),
    UInt32.le_iff_toNat_le.mp (of_decide_eq_true most)⟩

/-- The characters of a numeral. -/
def isNumeralChar (c : Char) : Bool :=
  c.isDigit || ['+', '-', '.', 'e', 'E'].contains c

theorem isNumeralChar_cases {c : Char} (h : isNumeralChar c = true) :
    c.isDigit = true ∨ isExponentMark c = true ∨ c ∈ ['+', '-', '.'] := by
  simp only [isNumeralChar, isExponentMark, Bool.or_eq_true, List.contains_iff_mem, List.mem_cons,
    List.not_mem_nil, or_false, beq_iff_eq] at h ⊢
  tauto

theorem Scan.of_isExponentMark {c : Char} (h : isExponentMark c = true) :
    c.isDigit = false ∧ c ≠ '.' ∧ isWordChar c = true := by
  simp only [isExponentMark, Bool.or_eq_true, beq_iff_eq] at h
  rcases h with rfl | rfl
  · decide
  · decide

theorem isNumeralChar_toUpper {c : Char} (h : isNumeralChar c = true) :
    isNumeralChar c.toUpper = true := by
  simp only [isNumeralChar, Bool.or_eq_true, List.contains_iff_mem] at h
  rcases h with digit | listed
  · have same : c.toUpper = c := by
      have bounds := toNat_of_isDigit digit
      have small : ¬ ('a'.toNat ≤ c.toNat ∧ c.toNat ≤ 'z'.toNat) := by
        rintro ⟨least, -⟩
        have : 97 ≤ c.toNat := least
        omega
      exact dif_neg small
    simp [same, isNumeralChar, digit]
  · have upper : ['+', '-', '.', 'e', 'E'].all (isNumeralChar ·.toUpper) = true := by decide
    exact List.all_eq_true.mp upper c listed

theorem isNumeralChar_upperAscii {word : String} (h : ∀ c ∈ word.toList, isNumeralChar c = true) :
    ∀ c ∈ (upperAscii word).toList, isNumeralChar c = true := by
  rw [upperAscii, String.toList_ofList, List.forall_mem_map]
  exact fun c member => isNumeralChar_toUpper (h c member)

/-! ## Numerals as they are written -/

/-- An exponent: `e` or `E`, a sign or none, and digits. -/
structure ExponentSyntax where
  mark : Char
  sign : Option Char
  digits : List Char
  marked : isExponentMark mark = true
  signed : ∀ c ∈ sign, c = '+' ∨ c = '-'
  nonempty : digits ≠ []
  listed : ∀ c ∈ digits, c.isDigit = true

def ExponentSyntax.chars (s : ExponentSyntax) : List Char :=
  s.mark :: (s.sign.toList ++ s.digits)

/-- A numeral: a minus sign or none, digits with a fraction or without, or a fraction alone,
    and an exponent or none. -/
structure NumeralSyntax where
  negative : Bool
  whole : List Char
  fraction : Option (List Char)
  exponent : Option ExponentSyntax
  wholeDigits : ∀ c ∈ whole, c.isDigit = true
  fractionDigits : ∀ digits ∈ fraction, ∀ c ∈ digits, c.isDigit = true
  nonempty : whole ≠ [] ∨ ∃ digits ∈ fraction, digits ≠ []

namespace NumeralSyntax

variable (n : NumeralSyntax)

def minus : List Char :=
  if n.negative then ['-'] else []

/-- The point and the digits behind it. -/
def point : List Char :=
  (n.fraction.map ('.' :: ·)).getD []

def power : List Char :=
  (n.exponent.map ExponentSyntax.chars).getD []

def chars : List Char :=
  n.minus ++ (n.whole ++ (n.point ++ n.power))

def text : String :=
  String.ofList n.chars

theorem point_cases :
    n.point = [] ∨ ∃ digits, n.point = '.' :: digits ∧ ∀ c ∈ digits, c.isDigit = true := by
  cases given : n.fraction with
  | none => exact .inl (by simp [point, given])
  | some digits => exact .inr ⟨digits, by simp [point, given], n.fractionDigits digits given⟩

theorem minus_cases : n.minus = [] ∨ n.minus = ['-'] := by
  cases given : n.negative with
  | true => exact .inr (by simp [minus, given])
  | false => exact .inl (by simp [minus, given])

theorem isDigit_or_of_mem_mantissa {c : Char} (h : c ∈ n.whole ++ n.point) :
    c.isDigit = true ∨ c = '.' := by
  rcases List.mem_append.mp h with whole | behind
  · exact .inl (n.wholeDigits c whole)
  · rcases n.point_cases with given | ⟨digits, given, listed⟩
    · simp [given] at behind
    · rw [given, List.mem_cons] at behind
      exact behind.symm.imp_left (listed c)

theorem isNumeralChar_of_mem : ∀ c ∈ n.chars, isNumeralChar c = true := by
  have digit {c : Char} (h : c.isDigit = true) : isNumeralChar c = true := by
    simp [isNumeralChar, h]
  have exponent (s : ExponentSyntax) : ∀ c ∈ s.chars, isNumeralChar c = true := by
    have sign : ∀ c ∈ s.sign.toList, isNumeralChar c = true := by
      intro c member
      rcases s.signed c (Option.mem_toList.mp member) with rfl | rfl
      · decide
      · decide
    have mark : isNumeralChar s.mark = true := by
      have marked := s.marked
      simp only [isExponentMark, Bool.or_eq_true, beq_iff_eq] at marked
      rcases marked with given | given
      · rw [given]
        decide
      · rw [given]
        decide
    exact List.forall_mem_cons.mpr
      ⟨mark, List.forall_mem_append.mpr ⟨sign, fun c member => digit (s.listed c member)⟩⟩
  rw [chars, ← List.append_assoc n.whole, List.forall_mem_append, List.forall_mem_append]
  refine ⟨?_, fun c member => ?_, ?_⟩
  · rcases n.minus_cases with given | given
    · simp [given]
    · rw [given]
      exact List.forall_mem_singleton.mpr (by decide)
  · rcases n.isDigit_or_of_mem_mantissa member with isDigit | rfl
    · exact digit isDigit
    · decide
  · cases given : n.exponent with
    | none => simp [power, given]
    | some s => simpa [power, given] using exponent s

end NumeralSyntax

theorem isBlank_of_isNumeralChar {c : Char} (h : isNumeralChar c = true) : isBlank c = false := by
  simp only [isNumeralChar, Bool.or_eq_true, List.contains_iff_mem] at h
  rcases h with digit | listed
  · have bounds := toNat_of_isDigit digit
    simp only [isBlank, Bool.or_eq_false_iff, Bool.and_eq_false_iff, decide_eq_false_iff_not,
      beq_eq_false_iff_ne]
    omega
  · have visible : ['+', '-', '.', 'e', 'E'].all (!isBlank ·) = true := by decide
    simpa using List.all_eq_true.mp visible c listed

theorem dropWhile_of_forall {p : Char → Bool} {cs : List Char} (h : ∀ c ∈ cs, p c = false) :
    cs.dropWhile p = cs := by
  cases cs with
  | nil => rfl
  | cons c cs => rw [List.dropWhile_cons, h c List.mem_cons_self, if_neg Bool.false_ne_true]

theorem trimChars_of_visible {cs : List Char} (h : ∀ c ∈ cs, isBlank c = false) :
    trimChars cs = cs := by
  have back : ∀ c ∈ cs.reverse, isBlank c = false :=
    fun c member => h c (List.mem_reverse.mp member)
  rw [trimChars, dropWhile_of_forall h, dropWhile_of_forall back, List.reverse_reverse]

theorem unsignedPart_of_first {c : Char} (unsigned : c ≠ '+' ∧ c ≠ '-') (cs : List Char) :
    unsignedPart (c :: cs) = c :: cs := by
  unfold unsignedPart
  split
  · simp_all
  · simp_all
  · rfl

namespace NumeralSyntax

variable (n : NumeralSyntax)

theorem exists_first : ∃ c cs, n.whole ++ (n.point ++ n.power) = c :: cs ∧
    (c.isDigit = true ∨ c = '.') := by
  cases given : n.whole with
  | cons c cs => exact ⟨c, _, rfl, .inl (n.wholeDigits c (by simp [given]))⟩
  | nil =>
      obtain ⟨digits, fraction, _⟩ := n.nonempty.resolve_left (by simp [given])
      exact ⟨'.', digits ++ n.power, by simp [point, Option.mem_def.mp fraction], .inr rfl⟩

theorem unsignedPart_chars : unsignedPart n.chars = n.whole ++ (n.point ++ n.power) := by
  rcases n.minus_cases with given | given
  · obtain ⟨c, cs, split, first⟩ := n.exists_first
    have unsigned : c ≠ '+' ∧ c ≠ '-' := by
      rcases first with digit | rfl
      · exact ⟨Scan.ne_of_isDigit digit rfl, Scan.ne_of_isDigit digit rfl⟩
      · decide
    rw [chars, given, List.nil_append, split]
    exact unsignedPart_of_first unsigned cs
  · rw [chars, given]
    rfl

theorem mantissa_power :
    (n.whole ++ (n.point ++ n.power)).takeWhile (!isExponentMark ·) = n.whole ++ n.point ∧
      (n.whole ++ (n.point ++ n.power)).dropWhile (!isExponentMark ·) = n.power := by
  have front : ∀ c ∈ n.whole ++ n.point, (!isExponentMark c) = true := by
    intro c member
    rcases n.isDigit_or_of_mem_mantissa member with digit | rfl
    · simp [isExponentMark, Scan.ne_of_isDigit digit]
    · decide
  have power : n.power.takeWhile (!isExponentMark ·) = [] ∧
      n.power.dropWhile (!isExponentMark ·) = n.power := by
    cases given : n.exponent with
    | none => simp [power, given]
    | some s => simp [power, given, ExponentSyntax.chars, s.marked]
  rw [← List.append_assoc, List.takeWhile_append_of_pos front, List.dropWhile_append_of_pos front,
    power.1, power.2, List.append_nil]
  exact ⟨rfl, rfl⟩

theorem isNumeric_of_unsignedPart {text : String}
    (h : unsignedPart (trimChars text.toList) = n.whole ++ (n.point ++ n.power)) :
    isNumeric text = true := by
  have front : ∀ c ∈ n.whole, (c != '.') = true := by
    intro c member
    simpa using Scan.ne_of_isDigit (n.wholeDigits c member) rfl
  have whole : (n.whole ++ n.point).takeWhile (· != '.') = n.whole ∧
      (n.whole ++ n.point).dropWhile (· != '.') = n.point := by
    rw [List.takeWhile_append_of_pos front, List.dropWhile_append_of_pos front]
    rcases n.point_cases with given | ⟨digits, given, _⟩
    · simp [given]
    · simp [given]
  have fraction : allDigits n.point.tail = true := by
    rcases n.point_cases with given | ⟨digits, given, listed⟩
    · simp [given, allDigits]
    · simpa [given, allDigits] using listed
  have some : (n.whole.isEmpty && n.point.tail.isEmpty) = false := by
    rcases n.nonempty with given | ⟨digits, given, nonempty⟩
    · simp [given]
    · simp [point, Option.mem_def.mp given, nonempty]
  have digits : allDigits n.whole = true := List.all_eq_true.mpr n.wholeDigits
  simp only [isNumeric, h, mantissa_power, whole, some, digits, fraction]
  cases given : n.exponent with
  | none => simp [power, given]
  | some s =>
      have unsigned : unsignedPart (s.sign.toList ++ s.digits) = s.digits := by
        cases sign : s.sign with
        | some c =>
            rcases s.signed c sign with rfl | rfl
            · rfl
            · rfl
        | none =>
            obtain ⟨c, cs, split⟩ := List.exists_cons_of_ne_nil s.nonempty
            have digit := s.listed c (by simp [split])
            rw [Option.toList_none, List.nil_append, split]
            exact unsignedPart_of_first
              ⟨Scan.ne_of_isDigit digit rfl, Scan.ne_of_isDigit digit rfl⟩ cs
      have listed : allDigits s.digits = true := List.all_eq_true.mpr s.listed
      simp [power, given, ExponentSyntax.chars, unsigned, listed, s.nonempty]

theorem isNumeric_text : isNumeric n.text = true := by
  have trimmed : trimChars n.text.toList = n.chars := by
    rw [text, String.toList_ofList]
    exact trimChars_of_visible fun c member =>
      isBlank_of_isNumeralChar (n.isNumeralChar_of_mem c member)
  apply n.isNumeric_of_unsignedPart
  rw [trimmed, n.unsignedPart_chars]

end NumeralSyntax

/-! ## Numeric texts -/

/-- A sign or none, and a numeral without one. -/
inductive SignedNumeral : List Char → Prop where
  | intro (sign : Option Char) (n : NumeralSyntax) (signed : ∀ c ∈ sign, c = '+' ∨ c = '-')
      (unsigned : n.negative = false) : SignedNumeral (sign.toList ++ n.chars)

theorem exists_sign (cs : List Char) : ∃ sign : Option Char,
    (∀ c ∈ sign, c = '+' ∨ c = '-') ∧ cs = sign.toList ++ unsignedPart cs := by
  unfold unsignedPart
  split
  · exact ⟨some '+', by simp, rfl⟩
  · exact ⟨some '-', by simp, rfl⟩
  · exact ⟨none, by simp, rfl⟩

theorem exists_fraction {cs : List Char}
    (digits : allDigits (cs.dropWhile (· != '.')).tail = true) :
    ∃ fraction : Option (List Char), cs.dropWhile (· != '.') = (fraction.map ('.' :: ·)).getD [] ∧
      fraction.getD [] = (cs.dropWhile (· != '.')).tail ∧
      ∀ ds ∈ fraction, ∀ c ∈ ds, c.isDigit = true := by
  cases point : cs.dropWhile (· != '.') with
  | nil => exact ⟨none, rfl, rfl, by simp⟩
  | cons c ds =>
      have mark : c = '.' := by simpa using stop_of_dropWhile point
      subst mark
      rw [point] at digits
      refine ⟨some ds, rfl, rfl, ?_⟩
      intro other same
      rw [← Option.mem_some_iff.mp same]
      exact List.all_eq_true.mp digits

theorem exists_exponent {c : Char} {cs : List Char} (marked : isExponentMark c = true)
    (nonempty : unsignedPart cs ≠ []) (digits : allDigits (unsignedPart cs) = true) :
    ∃ s : ExponentSyntax, s.chars = c :: cs := by
  obtain ⟨sign, signed, split⟩ := exists_sign cs
  refine ⟨⟨c, sign, unsignedPart cs, marked, signed, nonempty, List.all_eq_true.mp digits⟩, ?_⟩
  exact congrArg (c :: ·) split.symm

/-- Behind its sign a numeric text is a numeral. -/
theorem exists_numeral_of_isNumeric {text : String} (h : isNumeric text = true) :
    ∃ n : NumeralSyntax, n.negative = false ∧ n.chars = unsignedPart (trimChars text.toList) := by
  simp only [isNumeric, Bool.and_eq_true] at h
  generalize unsignedPart (trimChars text.toList) = unsigned at h ⊢
  obtain ⟨⟨⟨visible, whole⟩, digits⟩, power⟩ := h
  obtain ⟨exponent, behind⟩ : ∃ exponent : Option ExponentSyntax,
      unsigned.dropWhile (!isExponentMark ·) = (exponent.map ExponentSyntax.chars).getD [] := by
    cases ends : unsigned.dropWhile (!isExponentMark ·) with
    | nil => exact ⟨none, rfl⟩
    | cons c cs =>
        have marked : isExponentMark c = true := by simpa using stop_of_dropWhile ends
        simp only [ends, Bool.and_eq_true, Bool.not_eq_true', List.isEmpty_eq_false_iff] at power
        obtain ⟨s, chars⟩ := exists_exponent marked power.1 power.2
        exact ⟨some s, chars.symm⟩
  have split := List.takeWhile_append_dropWhile (p := (!isExponentMark ·)) (l := unsigned)
  generalize unsigned.takeWhile (!isExponentMark ·) = mantissa at visible whole digits split
  obtain ⟨fraction, point, inside, listed⟩ := exists_fraction digits
  have parts := List.takeWhile_append_dropWhile (p := (· != '.')) (l := mantissa)
  have nonempty : mantissa.takeWhile (· != '.') ≠ [] ∨ ∃ ds ∈ fraction, ds ≠ [] := by
    rw [← inside] at visible
    cases fraction with
    | none => exact .inl (by simpa using visible)
    | some ds => simpa [or_iff_not_imp_left] using visible
  rw [point] at parts
  rw [behind, ← parts, List.append_assoc] at split
  exact ⟨⟨false, mantissa.takeWhile (· != '.'), fraction, exponent, List.all_eq_true.mp whole,
    listed, nonempty⟩, rfl, split⟩

theorem SignedNumeral.isNumeralChar_of_mem {cs : List Char} (h : SignedNumeral cs) :
    ∀ c ∈ cs, isNumeralChar c = true := by
  obtain ⟨sign, n, signed, -⟩ := h
  rw [List.forall_mem_append]
  refine ⟨?_, n.isNumeralChar_of_mem⟩
  intro c member
  rcases signed c (Option.mem_toList.mp member) with rfl | rfl
  · decide
  · decide

theorem SignedNumeral.ne_nil {cs : List Char} (h : SignedNumeral cs) : cs ≠ [] := by
  obtain ⟨sign, n, -, -⟩ := h
  obtain ⟨c, rest, split, -⟩ := n.exists_first
  simp [NumeralSyntax.chars, split]

/-- A text without blanks around it is numeric exactly if it is a numeral. -/
theorem isNumeric_iff_trimChars {text : String} :
    isNumeric text = true ↔ SignedNumeral (trimChars text.toList) := by
  constructor
  · intro h
    obtain ⟨n, unsigned, chars⟩ := exists_numeral_of_isNumeric h
    obtain ⟨sign, signed, split⟩ := exists_sign (trimChars text.toList)
    rw [split, ← chars]
    exact .intro sign n signed unsigned
  · generalize trimmed : trimChars text.toList = cs
    rintro ⟨sign, n, signed, unsigned⟩
    apply n.isNumeric_of_unsignedPart
    have bare : n.chars = n.whole ++ (n.point ++ n.power) := by
      simp [NumeralSyntax.chars, NumeralSyntax.minus, unsigned]
    rw [trimmed, ← bare]
    cases sign with
    | none => rw [Option.toList_none, List.nil_append, n.unsignedPart_chars, bare]
    | some c =>
        rcases signed c rfl with rfl | rfl
        · rfl
        · rfl

/-! ## Blanks -/

theorem exists_blanks (cs : List Char) :
    ∃ before after, cs = before ++ (trimChars cs ++ after) ∧
      (∀ c ∈ before, isBlank c = true) ∧ ∀ c ∈ after, isBlank c = true := by
  refine ⟨cs.takeWhile isBlank, ((cs.dropWhile isBlank).reverse.takeWhile isBlank).reverse, ?_,
    fun c => List.mem_takeWhile_imp, ?_⟩
  · rw [trimChars, ← List.reverse_append, List.takeWhile_append_dropWhile, List.reverse_reverse,
      List.takeWhile_append_dropWhile]
  · intro c member
    exact List.mem_takeWhile_imp (List.mem_reverse.mp member)

theorem trimChars_of_blanks {before cs after : List Char} (nonempty : cs ≠ [])
    (visible : ∀ c ∈ cs, isBlank c = false) (front : ∀ c ∈ before, isBlank c = true)
    (back : ∀ c ∈ after, isBlank c = true) : trimChars (before ++ (cs ++ after)) = cs := by
  obtain ⟨c, rest, rfl⟩ := List.exists_cons_of_ne_nil nonempty
  have behind : ∀ c ∈ after.reverse, isBlank c = true :=
    fun c member => back c (List.mem_reverse.mp member)
  have inside : ∀ d ∈ (c :: rest).reverse, isBlank d = false :=
    fun d member => visible d (List.mem_reverse.mp member)
  rw [trimChars, List.dropWhile_append_of_pos front, List.cons_append, List.dropWhile_cons,
    visible c List.mem_cons_self, if_neg Bool.false_ne_true, ← List.cons_append,
    List.reverse_append, List.dropWhile_append_of_pos behind, dropWhile_of_forall inside,
    List.reverse_reverse]

theorem isNumeric_iff_blanks {text : String} :
    isNumeric text = true ↔ ∃ before numeral after, text.toList = before ++ (numeral ++ after) ∧
      (∀ c ∈ before, isBlank c = true) ∧ SignedNumeral numeral ∧
      ∀ c ∈ after, isBlank c = true := by
  rw [isNumeric_iff_trimChars]
  constructor
  · intro h
    obtain ⟨before, after, split, front, back⟩ := exists_blanks text.toList
    exact ⟨before, _, after, split, front, h, back⟩
  · rintro ⟨before, numeral, after, split, front, h, back⟩
    have visible : ∀ c ∈ numeral, isBlank c = false :=
      fun c member => isBlank_of_isNumeralChar (h.isNumeralChar_of_mem c member)
    rw [split, trimChars_of_blanks h.ne_nil visible front back]
    exact h

theorem isBlank_or_isNumeralChar {text : String} (h : isNumeric text = true) :
    ∀ c ∈ text.toList, isBlank c = true ∨ isNumeralChar c = true := by
  obtain ⟨before, numeral, after, split, front, numeric, back⟩ := isNumeric_iff_blanks.mp h
  simp only [split, List.forall_mem_append]
  exact ⟨fun c member => .inl (front c member),
    fun c member => .inr (numeric.isNumeralChar_of_mem c member),
    fun c member => .inl (back c member)⟩

/-! ## Quoted defaults -/

theorem sameFolded_null_of_mem {sql : String} {c : Char} (member : c ∈ sql.toList)
    (other : c.toUpper ∉ "NULL".toList) : sameFolded sql "NULL" = false := by
  rw [sameFolded, beq_eq_false_iff_ne]
  intro same
  have upper : c.toUpper ∈ (upperAscii sql).toList := by
    rw [upperAscii, String.toList_ofList]
    exact List.mem_map_of_mem member
  rw [same] at upper
  exact other upper

theorem sameFolded_null_of_isNumeric {text : String} (h : isNumeric text = true) :
    sameFolded text "NULL" = false := by
  obtain ⟨before, numeral, after, split, -, numeric, -⟩ := isNumeric_iff_blanks.mp h
  obtain ⟨c, rest, rfl⟩ := List.exists_cons_of_ne_nil numeric.ne_nil
  have char := isNumeralChar_toUpper (numeric.isNumeralChar_of_mem c List.mem_cons_self)
  have member : c ∈ text.toList := by simp [split]
  apply sameFolded_null_of_mem member
  intro listed
  have letters : "NULL".toList.all (!isNumeralChar ·) = true := by decide
  have unlisted := List.all_eq_true.mp letters _ listed
  rw [char] at unlisted
  contradiction

theorem defaultArgument_eq_quoted_iff {sql : String} :
    defaultArgument (.expr sql) = "\"" ++ sql ++ "\"" ↔ isNumeric sql = true := by
  constructor
  · intro quoted
    simp only [defaultArgument] at quoted
    split at quoted
    · have first := congrArg (·.toList.head?) quoted
      simp at first
    · split at quoted
      next numeric => exact numeric
      next =>
        have length := congrArg String.length quoted
        simp only [String.length_append] at length
        have mark : "\"".length = 1 := rfl
        omega
  · intro numeric
    simp [defaultArgument, sameFolded_null_of_isNumeric numeric, numeric]

/-- A text is numeric exactly if it is a numeral between blanks: a sign or none, digits with a
    point and more digits or without, or a point and digits, and an exponent with or without a
    sign, or none. The expressions that are written between double quotes as a default are the
    numeric ones, and none has a character that means something between double quotes. -/
theorem isNumeric_exact (text : String) :
    (isNumeric text = true ↔ ∃ before numeral after, text.toList = before ++ (numeral ++ after) ∧
      (∀ c ∈ before, isBlank c = true) ∧ SignedNumeral numeral ∧
      ∀ c ∈ after, isBlank c = true) ∧
    (defaultArgument (.expr text) = "\"" ++ text ++ "\"" ↔ isNumeric text = true) ∧
    (defaultArgument (.expr text) = "\"" ++ text ++ "\"" →
      ∀ c ∈ ['"', '$', '\\'], c ∉ text.toList) := by
  refine ⟨isNumeric_iff_blanks, defaultArgument_eq_quoted_iff, ?_⟩
  intro quoted c listed member
  have numeric := defaultArgument_eq_quoted_iff.mp quoted
  have others : ['"', '$', '\\'].all (fun c => !isBlank c && !isNumeralChar c) = true := by decide
  have neither := List.all_eq_true.mp others c listed
  rcases isBlank_or_isNumeralChar numeric c member with blank | char
  · simp [blank] at neither
  · simp [char] at neither

/-- `.25E-07` -/
def NumeralSyntax.tiny : NumeralSyntax where
  negative := false
  whole := []
  fraction := some ['2', '5']
  exponent := some ⟨'E', some '-', ['0', '7'], by decide, by simp, by simp,
    List.all_eq_true.mp rfl⟩
  wholeDigits := by simp
  fractionDigits := by
    rintro _ ⟨⟩
    exact List.all_eq_true.mp rfl
  nonempty := .inr ⟨['2', '5'], rfl, by simp⟩

/-- A fraction alone with two signs, between blanks, and texts that look like numerals. -/
theorem isNumeric_exact_tiny :
    isNumeric "\u2003+.25E-07\n" = true ∧
      defaultArgument (.expr "\u2003+.25E-07\n") = "\"" ++ "\u2003+.25E-07\n" ++ "\"" ∧
      (∀ c ∈ ['"', '$', '\\'], c ∉ "\u2003+.25E-07\n".toList) ∧
      ["", ".", "-", "--1", "1.2.3", "e5", "1e", "1e+", "1e2e3", "1 2"].any isNumeric = false := by
  obtain ⟨grammar, quotes, safe⟩ := isNumeric_exact "\u2003+.25E-07\n"
  have numeral : SignedNumeral ((some '+').toList ++ NumeralSyntax.tiny.chars) :=
    .intro (some '+') NumeralSyntax.tiny (by simp) rfl
  have numeric := grammar.mpr ⟨['\u2003'], _, ['\n'], by decide +kernel,
    List.forall_mem_singleton.mpr rfl, numeral, List.forall_mem_singleton.mpr rfl⟩
  have quoted := quotes.mpr numeric
  exact ⟨numeric, quoted, safe quoted, by decide +kernel⟩

end TableShift
