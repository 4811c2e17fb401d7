import Mathlib.Data.List.Basic
import Mathlib.Data.Nat.Init
import TableShift.Migration.File
import TableShift.Proofs.Calendar
import TableShift.Proofs.Spelling

/-! # Names of migration files

The name of a migration file is a stamp, the name of the migration and an ending. Stamps
of four-digit years have one width, so names sort as their stamps do, whatever follows
them. A name has no slash and is no name of dots: joined to a directory it names an entry
of that directory.
-/

namespace TableShift

/-! ## Texts in byte order -/

/-- The bytes of a text in UTF-8. -/
def utf8Bytes (s : String) : List UInt8 :=
  s.toUTF8.data.toList

/-- A text comes before another when texts are sorted byte by byte. -/
def SortsBefore (a b : String) : Prop :=
  utf8Bytes a < utf8Bytes b

def IsAscii (cs : List Char) : Prop :=
  ∀ c ∈ cs, c.toNat < 128

theorem utf8Bytes_of_ascii {s : String} (h : IsAscii s.toList) :
    utf8Bytes s = s.toList.map fun c => UInt8.ofNat c.toNat := by
  have encoded : utf8Bytes s = s.toList.flatMap String.utf8EncodeChar := by
    rw [utf8Bytes, String.toUTF8_eq_toByteArray, ← String.utf8Encode_toList, List.utf8Encode,
      List.data_toByteArray]
  rw [encoded, List.map_eq_flatMap]
  apply List.flatMap_congr
  intro c member
  have small : c.val.toNat ≤ 127 := Nat.le_of_lt_succ (h c member)
  simp only [String.utf8EncodeChar, if_pos small]
  rfl

/-- ASCII texts sort byte by byte as they do character by character. -/
theorem sortsBefore_of_lt {a b : String} (ha : IsAscii a.toList) (hb : IsAscii b.toList)
    (h : a.toList < b.toList) : SortsBefore a b := by
  rw [SortsBefore, utf8Bytes_of_ascii ha, utf8Bytes_of_ascii hb]
  generalize a.toList = as at ha h
  generalize b.toList = bs at hb h
  induction as generalizing bs with
  | nil =>
      cases bs with
      | nil => exact absurd h (List.not_lt_nil _)
      | cons d bs => exact List.nil_lt_cons _ _
  | cons c as ih =>
      cases bs with
      | nil => exact absurd h (List.not_lt_nil _)
      | cons d bs =>
          rw [IsAscii, List.forall_mem_cons] at ha hb
          rw [List.map_cons, List.map_cons, List.cons_lt_cons_iff]
          rcases List.cons_lt_cons_iff.mp h with first | ⟨rfl, rest⟩
          · left
            have codes : c.toNat < d.toNat := first
            rw [UInt8.lt_iff_toNat_lt, UInt8.toNat_ofNat', UInt8.toNat_ofNat']
            omega
          · exact .inr ⟨rfl, ih ha.2 bs hb.2 rest⟩

theorem append_lt_append {as bs : List Char} (same : as.length = bs.length) (h : as < bs)
    (more others : List Char) : as ++ more < bs ++ others := by
  induction as generalizing bs with
  | nil =>
      rw [List.length_eq_zero_iff.mp same.symm] at h
      exact absurd h (List.not_lt_nil _)
  | cons c as ih =>
      cases bs with
      | nil => exact absurd h (List.not_lt_nil _)
      | cons d bs =>
          rw [List.cons_append, List.cons_append, List.cons_lt_cons_iff]
          rcases List.cons_lt_cons_iff.mp h with first | ⟨rfl, rest⟩
          · exact .inl first
          · exact .inr ⟨rfl, ih (Nat.succ.inj same) rest⟩

theorem append_cons_lt (front : List Char) (c : Char) {more others : List Char}
    (h : more < others) : front ++ c :: more < front ++ c :: others :=
  List.append_left_lt (List.cons_lt_cons_self.mpr h)

/-! ## Numbers of a given width -/

theorem isDigit_of_mem_paddedDecimal {width n : Nat} {c : Char}
    (h : c ∈ (paddedDecimal width n).toList) : c.isDigit = true := by
  rw [paddedDecimal, String.toList_ofList, List.mem_append] at h
  rcases h with zero | digit
  · rw [List.eq_of_mem_replicate zero]
    rfl
  · exact Nat.isDigit_of_mem_toDigits (by decide) (by decide) digit

theorem length_paddedDecimal {width n : Nat} (fits : (Nat.toDigits 10 n).length ≤ width) :
    (paddedDecimal width n).toList.length = width := by
  simp only [paddedDecimal, String.toList_ofList, List.length_append, List.length_replicate]
  omega

theorem paddedDecimal_succ {width : Nat} (positive : 0 < width) (n : Nat) :
    (paddedDecimal (width + 1) n).toList =
      (paddedDecimal width (n / 10)).toList ++ [Nat.digitChar (n % 10)] := by
  simp only [paddedDecimal, String.toList_ofList]
  rw [Nat.toDigits_eq_if (by decide)]
  split
  next small =>
    have zero : Nat.toDigits 10 (n / 10) = ['0'] := by
      rw [Nat.div_eq_of_lt small]
      rfl
    obtain ⟨zeros, rfl⟩ := Nat.exists_eq_succ_of_ne_zero (Nat.ne_of_gt positive)
    rw [zero, Nat.mod_eq_of_lt small]
    simp [List.replicate_succ']
  next =>
    simp

theorem digitChar_lt {m n : Nat} (h : m < n) (small : n < 10) :
    Nat.digitChar m < Nat.digitChar n := by
  show (Nat.digitChar m).toNat < (Nat.digitChar n).toNat
  rw [Nat.toNat_digitChar_of_lt_ten (by omega), Nat.toNat_digitChar_of_lt_ten small]
  omega

theorem length_toDigits_div {width n : Nat} (positive : 0 < width)
    (fits : (Nat.toDigits 10 n).length ≤ width + 1) :
    (Nat.toDigits 10 (n / 10)).length ≤ width := by
  rw [Nat.toDigits_eq_if (by decide)] at fits
  split at fits
  next small =>
    rw [Nat.div_eq_of_lt small]
    exact positive
  next =>
    simpa using fits

theorem paddedDecimal_lt {width m n : Nat} (positive : 0 < width) (h : m < n)
    (fitsM : (Nat.toDigits 10 m).length ≤ width) (fitsN : (Nat.toDigits 10 n).length ≤ width) :
    (paddedDecimal width m).toList < (paddedDecimal width n).toList := by
  induction width, positive using Nat.le_induction generalizing m n with
  | base =>
      have single : ∀ d < 10, (paddedDecimal 1 d).toList = [Nat.digitChar d] := by decide
      have small : n < 10 := by
        simpa using (Nat.length_toDigits_le_iff (by decide) (by decide)).mp fitsN
      rw [single m (by omega), single n small, List.cons_lt_cons_iff]
      exact .inl (digitChar_lt h small)
  | succ width positive ih =>
      have tensM := length_toDigits_div positive fitsM
      have tensN := length_toDigits_div positive fitsN
      rw [paddedDecimal_succ positive, paddedDecimal_succ positive]
      by_cases same : m / 10 = n / 10
      · rw [same]
        apply List.append_left_lt
        rw [List.cons_lt_cons_iff]
        exact .inl (digitChar_lt (by omega) (by omega))
      · refine append_lt_append ?_ (ih (by omega) tensM tensN) _ _
        rw [length_paddedDecimal tensM, length_paddedDecimal tensN]

theorem paddedDecimal_append_lt {width m n : Nat} (positive : 0 < width) (h : m < n)
    (fitsM : (Nat.toDigits 10 m).length ≤ width) (fitsN : (Nat.toDigits 10 n).length ≤ width)
    (more others : List Char) :
    (paddedDecimal width m).toList ++ more < (paddedDecimal width n).toList ++ others :=
  append_lt_append ((length_paddedDecimal fitsM).trans (length_paddedDecimal fitsN).symm)
    (paddedDecimal_lt positive h fitsM fitsN) more others

theorem paddedTwo_append_lt {m n : Nat} (h : m < n) (small : n < 100) (more others : List Char) :
    (paddedDecimal 2 m).toList ++ more < (paddedDecimal 2 n).toList ++ others := by
  have fits {k : Nat} (small : k < 100) : (Nat.toDigits 10 k).length ≤ 2 :=
    (Nat.length_toDigits_le_iff (by decide) (by decide)).mpr small
  exact paddedDecimal_append_lt (by decide) h (fits (by omega)) (fits small) more others

/-! ## Stamps as texts -/

namespace Stamp

/-- A stamp in a year that is written with four digits and no sign. -/
def PlainYear (s : Stamp) : Prop :=
  0 ≤ s.year ∧ s.year ≤ 9999

instance (s : Stamp) : Decidable s.PlainYear :=
  inferInstanceAs (Decidable (_ ∧ _))

theorem toList_text {s : Stamp} (plain : s.PlainYear) :
    s.text.toList =
      (paddedDecimal 4 s.year.toNat).toList ++ '_' :: ((paddedDecimal 2 s.month).toList ++
        '_' :: ((paddedDecimal 2 s.day).toList ++ '_' :: ((paddedDecimal 2 s.hour).toList ++
          ((paddedDecimal 2 s.minute).toList ++ (paddedDecimal 2 s.second).toList)))) := by
  obtain ⟨early, late⟩ := plain
  have unsigned : yearText s.year = paddedDecimal 4 s.year.toNat := by
    have same : s.year.natAbs = s.year.toNat := by omega
    rw [yearText, if_neg (by omega), if_neg (by omega), same, String.empty_append]
  simp [text, unsigned]

/-- Stamps in years of four digits sort as texts, whatever follows them. -/
theorem text_lt_of_earlier {s t : Stamp} (valid : t.Valid) (plainS : s.PlainYear)
    (plainT : t.PlainYear) (h : s.Earlier t) (more others : List Char) :
    s.text.toList ++ more < t.text.toList ++ others := by
  have yearS := plainS
  have yearT := plainT
  unfold PlainYear at yearS yearT
  rw [toList_text plainS, toList_text plainT]
  simp only [List.append_assoc, List.cons_append]
  cases h with
  | year earlier =>
      have fits {n : Nat} (small : n < 10000) : (Nat.toDigits 10 n).length ≤ 4 :=
        (Nat.length_toDigits_le_iff (by decide) (by decide)).mpr small
      exact paddedDecimal_append_lt (by decide) (by omega) (fits (by omega)) (fits (by omega)) _ _
  | month year earlier =>
      have month := valid.month_le
      rw [year]
      exact append_cons_lt _ _ (paddedTwo_append_lt earlier (by omega) _ _)
  | day year month earlier =>
      have day := valid.day_le
      rw [year, month]
      refine append_cons_lt _ _ (append_cons_lt _ _ ?_)
      exact paddedTwo_append_lt earlier (by omega) _ _
  | hour year month day earlier =>
      have hour := valid.hour
      rw [year, month, day]
      refine append_cons_lt _ _ (append_cons_lt _ _ (append_cons_lt _ _ ?_))
      exact paddedTwo_append_lt earlier (by omega) _ _
  | minute year month day hour earlier =>
      have minute := valid.minute
      rw [year, month, day, hour]
      refine append_cons_lt _ _ (append_cons_lt _ _ (append_cons_lt _ _ ?_))
      exact List.append_left_lt (paddedTwo_append_lt earlier (by omega) _ _)
  | second year month day hour minute earlier =>
      have second := valid.second
      rw [year, month, day, hour, minute]
      refine append_cons_lt _ _ (append_cons_lt _ _ (append_cons_lt _ _ ?_))
      refine List.append_left_lt (List.append_left_lt ?_)
      exact paddedTwo_append_lt earlier (by omega) _ _

end Stamp

/-! ## Names in directories -/

namespace Path

/-- A text that is the name of an entry, and nothing else. -/
structure IsEntry (name : String) : Prop where
  slash : '/' ∉ name.toList
  visible : name ≠ ""
  dot : name ≠ "."
  dots : name ≠ ".."

/-- A path of an entry of a directory: it goes on from the directory by one name, down. -/
structure LeadsInto (dir name path : String) : Prop where
  parts : Path.parts path = Path.parts dir ++ [name]
  down : name ≠ ".."
  absolute : isAbsolute path = isAbsolute dir
  plain : endsInDirectory path = false

theorem pieces_ne_nil (cs : List Char) : pieces cs ≠ [] := by
  cases cs with
  | nil => simp [pieces]
  | cons c cs =>
      rw [pieces]
      split
      · simp
      · split <;> simp

theorem pieces_append_slash (cs more : List Char) :
    pieces (cs ++ '/' :: more) = pieces cs ++ pieces more := by
  induction cs with
  | nil => simp [pieces]
  | cons c cs ih =>
      obtain ⟨piece, rest, split⟩ := List.exists_cons_of_ne_nil (pieces_ne_nil cs)
      by_cases slash : c = '/'
      · simp [pieces, slash, ih]
      · simp [pieces, slash, ih, split]

theorem pieces_of_no_slash {cs : List Char} (h : '/' ∉ cs) : pieces cs = [cs] := by
  induction cs with
  | nil => rfl
  | cons c cs ih =>
      rw [List.mem_cons, not_or] at h
      simp [pieces, Ne.symm h.1, ih h.2]

namespace IsEntry

variable {name : String}

theorem toList_ne {other : String} (h : name ≠ other) : name.toList ≠ other.toList := by
  intro same
  exact h (String.toList_injective same)

theorem head?_ne (h : IsEntry name) : name.toList.head? ≠ some '/' := by
  intro first
  exact h.slash (List.mem_of_mem_head? first)

theorem getLast?_ne (h : IsEntry name) : name.toList.getLast? ≠ some '/' := by
  intro last
  exact h.slash (List.mem_of_mem_getLast? last)

theorem pieces_join (h : IsEntry name) (dir : String) :
    ∃ front, pieces (join dir name).toList = front ++ [name.toList] ∧
      (front ++ [[]] = pieces dir.toList ∨ front = pieces dir.toList) := by
  have single := pieces_of_no_slash h.slash
  rw [join, if_neg h.head?_ne]
  split
  next ended =>
    by_cases empty : dir = ""
    · subst empty
      exact ⟨[], by simp [single], .inl rfl⟩
    · have slash : dir.toList.getLast? = some '/' := by simpa [empty] using ended
      obtain ⟨front, whole⟩ := List.getLast?_eq_some_iff.mp slash
      refine ⟨pieces front, ?_, .inl ?_⟩
      · simp [whole, pieces_append_slash, single]
      · rw [whole, pieces_append_slash]
        rfl
  next =>
    refine ⟨pieces dir.toList, ?_, .inr rfl⟩
    simp [pieces_append_slash, single]

theorem isIdle_eq (h : IsEntry name) : isIdle name.toList = false := by
  simp only [isIdle, Bool.or_eq_false_iff, List.isEmpty_eq_false_iff, beq_eq_false_iff_ne]
  exact ⟨toList_ne h.visible, toList_ne h.dot⟩

theorem parts_join (h : IsEntry name) (dir : String) :
    parts (join dir name) = parts dir ++ [name] := by
  obtain ⟨front, joined, before⟩ := h.pieces_join dir
  have same : front.filter (!isIdle ·) = (pieces dir.toList).filter (!isIdle ·) := by
    rcases before with slash | whole
    · rw [← slash, List.filter_append]
      simp [isIdle]
    · rw [whole]
  simp [parts, joined, List.filter_append, same, h.isIdle_eq]

theorem getLast?_join (h : IsEntry name) (dir : String) :
    (join dir name).toList.getLast? = name.toList.getLast? := by
  have visible : name.toList ≠ [] := toList_ne h.visible
  rw [join, if_neg h.head?_ne]
  split
  · rw [String.toList_append, List.getLast?_append_of_ne_nil _ visible]
  · rw [String.toList_append, List.getLast?_append_of_ne_nil _ visible]

theorem isAbsolute_join (h : IsEntry name) (dir : String) :
    isAbsolute (join dir name) = isAbsolute dir := by
  by_cases empty : dir = ""
  · subst empty
    simp [join, isAbsolute, h.head?_ne]
  · have visible : dir.toList ≠ [] := toList_ne empty
    obtain ⟨c, cs, start⟩ := List.exists_cons_of_ne_nil visible
    rw [join, if_neg h.head?_ne]
    split <;> simp [isAbsolute, start]

theorem endsInDots_join (h : IsEntry name) (dir : String) : endsInDots (join dir name) = false := by
  obtain ⟨front, joined, -⟩ := h.pieces_join dir
  have visible : name.toList ≠ [] := toList_ne h.visible
  have dot : name.toList ≠ ['.'] := toList_ne h.dot
  have dots : name.toList ≠ ['.', '.'] := toList_ne h.dots
  simp [endsInDots, joined, List.filter_append, visible, dot, dots]

/-- A name that is joined to a directory names an entry of it. -/
theorem leadsInto_join (h : IsEntry name) (dir : String) : LeadsInto dir name (join dir name) where
  parts := h.parts_join dir
  down := h.dots
  absolute := h.isAbsolute_join dir
  plain := by
    have slash : endsInSlash (join dir name) = false := by
      simpa [endsInSlash, h.getLast?_join dir] using h.getLast?_ne
    rw [endsInDirectory, slash, h.endsInDots_join dir]
    rfl

end IsEntry

end Path

/-! ## Names of migrations -/

/-- A digit, a small letter or an underscore. -/
def isNameChar (c : Char) : Bool :=
  c.isDigit || c.isLower || c == '_'

theorem toNat_lt_of_isAlphanum {c : Char} (h : c.isAlphanum = true) : c.toNat < 128 := by
  rcases Bool.or_eq_true_iff.mp h with letter | digit
  · have range := toNat_of_isAlpha letter
    omega
  · have most : c.toNat ≤ 57 :=
      UInt32.le_iff_toNat_le.mp (of_decide_eq_true (Bool.and_eq_true_iff.mp digit).2)
    omega

theorem toNat_lt_of_isNameChar {c : Char} (h : isNameChar c = true) : c.toNat < 128 := by
  simp only [isNameChar, Bool.or_eq_true, beq_iff_eq] at h
  rcases h with (digit | lower) | rfl
  · exact toNat_lt_of_isAlphanum (Bool.or_eq_true_iff.mpr (.inr digit))
  · have letter : c.isAlpha = true := Bool.or_eq_true_iff.mpr (.inr lower)
    exact toNat_lt_of_isAlphanum (Bool.or_eq_true_iff.mpr (.inl letter))
  · decide

theorem isNameChar_toLower {c : Char} (h : c.isAlphanum = true) : isNameChar c.toLower = true := by
  have all : ∀ n < 128, (Char.ofNat n).isAlphanum = true →
      isNameChar (Char.ofNat n).toLower = true := by decide
  have here := all c.toNat (toNat_lt_of_isAlphanum h)
  rw [Char.ofNat_toNat] at here
  exact here h

theorem isNameChar_safeName {name : String} {c : Char} (h : c ∈ (safeName name).toList) :
    isNameChar c = true := by
  rw [safeName, String.toList_ofList] at h
  obtain ⟨d, -, rfl⟩ := List.mem_map.mp h
  split
  next letter => exact isNameChar_toLower letter
  next => rfl

theorem isNameChar_migrationName {statement : Statement} {c : Char}
    (h : c ∈ statement.migrationName.toList) : isNameChar c = true := by
  cases statement with
  | create statement => exact isNameChar_safeName h
  | alter statement => exact isNameChar_safeName h
  | drop statement =>
      simp only [Statement.migrationName] at h
      split at h
      · have plain : "drop_tables".toList.all isNameChar = true := by decide
        exact List.all_eq_true.mp plain c h
      · exact isNameChar_safeName h
      · exact isNameChar_safeName h

theorem PendingMigration.isNameChar_plan {statements : List Statement} {indent : Nat}
    {squash : Option String} {pending : PendingMigration}
    (h : pending ∈ plan statements indent squash) {c : Char} (member : c ∈ pending.name.toList) : isNameChar c = true := by
  unfold plan at h
  split at h
  · simp at h
  · rw [List.mem_singleton.mp h] at member
    exact isNameChar_safeName member
  · obtain ⟨⟨statement, migration⟩, -, rfl⟩ := List.mem_map.mp h
    exact isNameChar_migrationName member

namespace MigrationFile

theorem mem_renderFrom {stub : Stub} {start : Stamp} {position : Nat}
    {pending : List PendingMigration} {file : MigrationFile}
    (h : file ∈ renderFrom stub start position pending) :
    ∃ i, position ≤ i ∧ i < position + pending.length ∧
      ∃ p ∈ pending, file.fileName = nameAt start i p.name := by
  induction pending generalizing position with
  | nil => simp [renderFrom] at h
  | cons p pending ih =>
      rw [renderFrom] at h
      rcases List.mem_cons.mp h with rfl | later
      · exact ⟨position, Nat.le_refl _, by simp, p, List.mem_cons_self, rfl⟩
      · obtain ⟨i, above, below, q, member, named⟩ := ih later
        refine ⟨i, by omega, ?_, q, List.mem_cons_of_mem p member, named⟩
        rw [List.length_cons]
        omega

theorem isNameChar_stem {s : Stamp} (plain : s.PlainYear) {name : String}
    (named : ∀ c ∈ name.toList, isNameChar c = true) :
    ∀ c ∈ (s.text ++ "_" ++ name).toList, isNameChar c = true := by
  intro c member
  have digit {width n : Nat} (h : c ∈ (paddedDecimal width n).toList) : isNameChar c = true := by
    simp [isNameChar, isDigit_of_mem_paddedDecimal h]
  rw [String.toList_append, String.toList_append, Stamp.toList_text plain] at member
  simp only [List.mem_append, List.mem_cons] at member
  rcases member with ((year | rfl | month | rfl | day | rfl | hour | minute | second) | mark) | name
  · exact digit year
  · rfl
  · exact digit month
  · rfl
  · exact digit day
  · rfl
  · exact digit hour
  · exact digit minute
  · exact digit second
  · rw [List.mem_singleton.mp mark]
    rfl
  · exact named c name

theorem slash_notMem_text (s : Stamp) : '/' ∉ s.text.toList := by
  have digits (width n : Nat) : '/' ∉ (paddedDecimal width n).toList := by
    intro member
    have digit := isDigit_of_mem_paddedDecimal member
    revert digit
    decide
  have year : '/' ∉ (Stamp.yearText s.year).toList := by
    unfold Stamp.yearText
    split
    · simp [digits]
    · split <;> simp [digits]
  simp [Stamp.text, digits, year]

theorem isEntry_nameAt (start : Stamp) (seconds : Int) {name : String} (h : '/' ∉ name.toList) :
    Path.IsEntry (nameAt start seconds name) := by
  have ending : (nameAt start seconds name).toList.getLast? = some 'p' := by
    rw [nameAt, String.toList_append, List.getLast?_append_of_ne_nil _ (by decide)]
    rfl
  refine ⟨?_, ?_, ?_, ?_⟩
  · simp [nameAt, slash_notMem_text, h]
  · intro empty
    simp [empty] at ending
  · intro dot
    simp [dot] at ending
  · intro dots
    simp [dots] at ending

theorem isAscii_nameAt {start : Stamp} {seconds : Int}
    (plain : (start.addSeconds seconds).PlainYear) {name : String}
    (named : ∀ c ∈ name.toList, isNameChar c = true) :
    IsAscii (nameAt start seconds name).toList := by
  intro c member
  rw [nameAt, String.toList_append, List.mem_append] at member
  rcases member with stem | ending
  · exact toNat_lt_of_isNameChar (isNameChar_stem plain named c stem)
  · have ascii : ".php".toList.all (·.toNat < 128) = true := by decide
    simpa using List.all_eq_true.mp ascii c ending

/-- A later stamp puts a name behind another one, whatever the names. -/
theorem sortsBefore_nameAt {start : Stamp} {i j : Int} (h : i < j)
    (plainI : (start.addSeconds i).PlainYear) (plainJ : (start.addSeconds j).PlainYear)
    {name other : String} (named : ∀ c ∈ name.toList, isNameChar c = true)
    (others : ∀ c ∈ other.toList, isNameChar c = true) :
    SortsBefore (nameAt start i name) (nameAt start j other) := by
  have earlier : (start.addSeconds i).Earlier (start.addSeconds j) :=
    Stamp.earlier_ofSeconds (Int.add_lt_add_left h _)
  have valid : (start.addSeconds j).Valid := (Stamp.ofSeconds_spec _).1
  refine sortsBefore_of_lt (isAscii_nameAt plainI named) (isAscii_nameAt plainJ others) ?_
  simp only [nameAt, String.toList_append, List.append_assoc]
  exact Stamp.text_lt_of_earlier valid plainI plainJ earlier _ _

/-- Files that are rendered from a position on are stamped one after the other. -/
theorem pairwise_renderFrom (stub : Stub) (start : Stamp) (position : Nat)
    {pending : List PendingMigration}
    (named : ∀ p ∈ pending, ∀ c ∈ p.name.toList, isNameChar c = true)
    (plain : ∀ i, position ≤ i → i < position + pending.length → (start.addSeconds i).PlainYear) :
    ((renderFrom stub start position pending).map fileName).Pairwise SortsBefore := by
  induction pending generalizing position with
  | nil => exact .nil
  | cons p pending ih =>
      rw [List.forall_mem_cons] at named
      rw [List.length_cons] at plain
      rw [renderFrom, List.map_cons, List.pairwise_cons]
      constructor
      · intro name member
        obtain ⟨file, listed, rfl⟩ := List.mem_map.mp member
        obtain ⟨i, above, below, q, planned, later⟩ := mem_renderFrom listed
        rw [later]
        exact sortsBefore_nameAt (by omega) (plain position (by omega) (by omega))
          (plain i (by omega) (by omega)) named.1 (named.2 q planned)
      · exact ih (position + 1) named.2 fun i above below => plain i (by omega) (by omega)

/-- The names of rendered files sort in the order of the planned migrations, consist of
    digits, small letters and underscores before their ending, and are those of entries of
    the directory they are joined to. -/
theorem render_fileNames (stub : Stub) (start : Stamp) (statements : List Statement)
    (indent : Nat) (squash : Option String)
    (plain : ∀ i < (PendingMigration.plan statements indent squash).length,
      (start.addSeconds i).PlainYear) :
    let names := (render stub start (PendingMigration.plan statements indent squash)).map fileName
    names.Pairwise SortsBefore ∧ names.Nodup ∧
      (∀ name ∈ names, ∃ stem, name = stem ++ ".php" ∧ ∀ c ∈ stem.toList, isNameChar c = true) ∧
      ∀ name ∈ names, ∀ dir, Path.LeadsInto dir name (Path.join dir name) := by
  intro names
  have named : ∀ p ∈ PendingMigration.plan statements indent squash,
      ∀ c ∈ p.name.toList, isNameChar c = true := fun p planned c member =>
    PendingMigration.isNameChar_plan planned member
  have sorted : names.Pairwise SortsBefore :=
    pairwise_renderFrom stub start 0 named fun i _ below => plain i (by omega)
  have source : ∀ name ∈ names, ∃ i < (PendingMigration.plan statements indent squash).length,
      ∃ p ∈ PendingMigration.plan statements indent squash, name = nameAt start i p.name := by
    intro name member
    obtain ⟨file, listed, rfl⟩ := List.mem_map.mp member
    obtain ⟨i, -, below, p, planned, stamped⟩ := mem_renderFrom listed
    exact ⟨i, by omega, p, planned, stamped⟩
  refine ⟨sorted, sorted.imp ?_, ?_, ?_⟩
  · rintro name _ before rfl
    exact List.lt_irrefl _ before
  · intro name member
    obtain ⟨i, below, p, planned, rfl⟩ := source name member
    exact ⟨_, rfl, isNameChar_stem (plain i below) (named p planned)⟩
  · intro name member dir
    obtain ⟨i, -, p, planned, rfl⟩ := source name member
    refine (isEntry_nameAt start i ?_).leadsInto_join dir
    intro slash
    exact absurd (named p planned '/' slash) (by decide)

/-- Tables whose names would lead out of a directory. -/
def strayTables : List Statement :=
  [.create ⟨"../É/Users", [{ name := some "id", type := some ⟨"INT", [], []⟩ }]⟩,
    .drop ⟨["/etc", ".."]⟩]

/-- The second file is stamped in the next year. -/
theorem render_fileNames_newYear :
    let lastSecond : Stamp := ⟨1999, 12, 31, 23, 59, 59⟩
    let first := "1999_12_31_235959_create______users_table.php"
    let second := "2000_01_01_000000_drop__etc_table_and_more.php"
    (∀ i < (PendingMigration.plan strayTables 2 none).length,
      (lastSecond.addSeconds i).PlainYear) ∧
    (render .builtin lastSecond (PendingMigration.plan strayTables 2 none)).map fileName =
      [first, second] ∧
    SortsBefore first second ∧ Path.LeadsInto "out/" second (Path.join "out/" second) := by
  intro lastSecond first second
  have plain : ∀ i < (PendingMigration.plan strayTables 2 none).length,
      (lastSecond.addSeconds i).PlainYear := by
    decide +kernel
  have names : (render .builtin lastSecond (PendingMigration.plan strayTables 2 none)).map fileName =
      [first, second] := by
    decide +kernel
  obtain ⟨sorted, -, -, entries⟩ := render_fileNames .builtin lastSecond strayTables 2 none plain
  rw [names] at sorted entries
  exact ⟨plain, names, List.rel_of_pairwise_cons sorted (by simp), entries second (by simp) "out/"⟩

end MigrationFile

end TableShift
