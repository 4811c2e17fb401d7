import TableShift.Proofs.Boundary

/-! # Statements do not affect one another

A script, a boundary and another script are read as the statements of the first and
then those of the second. No compound keyword and no statement reaches across the
semicolon, so a complaint about either script is the complaint about it alone, at its
place in the whole.
-/

namespace TableShift

/-! ## Compound keywords -/

namespace Lexeme

theorem length_le_of_startWith {words : List String} {ls : List Lexeme}
    (h : startWith words ls = true) : words.length ≤ ls.length := by
  induction words generalizing ls with
  | nil => simp
  | cons word words ih =>
      cases ls with
      | nil => simp [startWith] at h
      | cons l ls =>
          simp only [startWith, Bool.and_eq_true] at h
          have := ih h.2
          simp only [List.length_cons]
          omega

theorem length_le_of_compound? {words : List String} {ls : List Lexeme}
    (h : compound? ls = some words) : words.length ≤ ls.length :=
  length_le_of_startWith (List.find?_some (p := (startWith · ls)) h)

section Mark

variable {mark : Lexeme} (unspelled : mark.token.keyword? = none)
include unspelled

theorem isKeyword_eq_false (word : String) : mark.token.isKeyword word = false := by
  cases token : mark.token with
  | keyword word => simp [token, Token.keyword?] at unspelled
  | identifier | literal | punct => rfl

theorem startWith_append (words : List String) (ls more : List Lexeme) :
    startWith words (ls ++ mark :: more) = startWith words ls := by
  induction words generalizing ls with
  | nil => rfl
  | cons word words ih =>
      cases ls with
      | nil => simp [startWith, isKeyword_eq_false unspelled]
      | cons l ls => simp [startWith, ih]

theorem compound?_append (ls more : List Lexeme) :
    compound? (ls ++ mark :: more) = compound? ls := by
  simp only [compound?, startWith_append unspelled]

/-- No compound keyword reaches across a lexeme that is no keyword. -/
theorem mergeCompounds_append (ls more : List Lexeme) :
    mergeCompounds (ls ++ mark :: more) = mergeCompounds ls ++ mark :: mergeCompounds more := by
  fun_induction mergeCompounds ls with
  | case1 =>
      have absent : compound? (mark :: more) = none := compound?_append unspelled [] more
      rw [List.nil_append, mergeCompounds, absent]
      rfl
  | case2 l ls words found ih =>
      have spelled := length_pos_of_compound? found
      have fits := length_le_of_compound? found
      have whole : compound? (l :: (ls ++ mark :: more)) = some words :=
        (compound?_append unspelled (l :: ls) more).trans found
      rw [List.cons_append, mergeCompounds, whole]
      simp only [List.length_cons] at fits
      have taken : (l :: (ls ++ mark :: more)).take words.length = (l :: ls).take words.length := by
        rw [← List.cons_append, List.take_append_of_le_length fits]
      have left : (ls ++ mark :: more).drop (words.length - 1) =
          ls.drop (words.length - 1) ++ mark :: more :=
        List.drop_append_of_le_length (by omega)
      simp only [taken, left, ih, List.cons_append]
  | case3 l ls absent ih =>
      have whole : compound? (l :: (ls ++ mark :: more)) = none :=
        (compound?_append unspelled (l :: ls) more).trans absent
      rw [List.cons_append, mergeCompounds, whole]
      simp only [ih, List.cons_append]

end Mark

theorem tokenize_boundary {a : String} {as : List Lexeme} (h : tokenize a = .ok as) (b : String) :
    tokenize (a ++ " \n;" ++ b) =
      (relocateResult (· + (byteLength a.toList + 3))
          (List.map (relocate (· + (byteLength a.toList + 3)))) (tokenize b)).map fun bs =>
        as ++ semicolonAt (byteLength a.toList + 2) :: bs := by
  have text : (a ++ " \n;" ++ b).toList = a.toList ++ Gap.boundary b.toList := by
    simp [Gap.boundary]
  cases scanned : scanFrom 0 a.toList with
  | error e => simp [tokenize, scanned] at h
  | ok ls =>
      simp only [tokenize, scanned, Except.ok.injEq] at h
      have shifted := scanFrom_relocate (byteLength a.toList + 3) 0 b.toList
      simp only [Nat.zero_add] at shifted
      rw [tokenize, tokenize, text, scanFrom_boundary 0 scanned]
      simp only [Nat.zero_add, shifted]
      have semicolon : (semicolonAt (byteLength a.toList + 2)).token.keyword? = none := rfl
      cases scanFrom 0 b.toList with
      | error e => rfl
      | ok more =>
          simp only [relocateResult_ok, Except.map, mergeCompounds_append semicolon,
            mergeCompounds_relocate, h]

end Lexeme

/-! ## Statements -/

namespace Script

theorem chunks_ne_nil (ls : List Lexeme) : chunks ls ≠ [] := by
  cases ls with
  | nil => simp [chunks]
  | cons l ls =>
      rw [chunks]
      split
      · simp
      · split <;> simp

theorem chunks_of_uncut {ls : List Lexeme} (uncut : ∀ l ∈ ls, l.token.isPunct ';' = false) :
    chunks ls = [ls] := by
  induction ls with
  | nil => rfl
  | cons l ls ih =>
      rw [List.forall_mem_cons] at uncut
      simp [chunks, uncut.1, ih uncut.2]

theorem chunks_append {mark : Lexeme} (ends : mark.token.isPunct ';' = true)
    (ls more : List Lexeme) : chunks (ls ++ mark :: more) = chunks ls ++ chunks more := by
  induction ls with
  | nil => simp [chunks, ends]
  | cons l ls ih =>
      cases last : l.token.isPunct ';' with
      | true => simp [chunks, last, ih]
      | false =>
          obtain ⟨chunk, rest, split⟩ := List.exists_cons_of_ne_nil (chunks_ne_nil ls)
          rw [split] at ih
          simp [chunks, last, ih, split]

theorem statements_append (chunks more : List (List Lexeme)) :
    statements (chunks ++ more) =
      statements chunks >>= fun found => (statements more).map (found ++ ·) := by
  induction chunks with
  | nil =>
      rw [List.nil_append]
      cases statements more <;> rfl
  | cons chunk chunks ih =>
      simp only [List.cons_append, statements, ih]
      cases (Cursor.ofSlice chunk).statement with
      | error e => rfl
      | ok statement =>
          cases statements chunks with
          | error e => rfl
          | ok found =>
              cases statements more with
              | error e => rfl
              | ok others =>
                  exact congrArg Except.ok (List.append_assoc statement.toList found others).symm

theorem statements_semicolon (f : Nat → Nat) (start : Nat) (as bs : List Lexeme) :
    statements (chunks (as ++ Lexeme.semicolonAt start :: bs.map (Lexeme.relocate f))) =
      statements (chunks as) >>= fun found =>
        (relocateResult f id (statements (chunks bs))).map (found ++ ·) := by
  rw [chunks_append rfl, chunks_relocate, statements_append, statements_relocate]

/-- After a script that can be read, another one is read as if it stood alone. -/
theorem parse_after_ok {a : String} {found : List Statement} (h : parse a = .ok found)
    (b : String) :
    parse (a ++ " \n;" ++ b) =
      (relocateResult (· + (byteLength a.toList + 3)) id (parse b)).map (found ++ ·) := by
  cases ha : Lexeme.tokenize a with
  | error e => simp [parse, ha] at h
  | ok as =>
      have lexemes := Lexeme.tokenize_boundary ha b
      have first : statements (chunks as) = .ok found := by simpa [parse, ha] using h
      cases hb : Lexeme.tokenize b with
      | error e => simp [parse, lexemes, hb, Except.map]
      | ok bs =>
          simp only [parse, lexemes, hb, relocateResult_ok, Except.map]
          rw [statements_semicolon, first]
          rfl

/-- A complaint about a script is not affected by a script after it that has lexemes. -/
theorem parse_after_error {a b : String} {as bs : List Lexeme} {e : SyntaxError}
    (ha : Lexeme.tokenize a = .ok as) (hb : Lexeme.tokenize b = .ok bs) (h : parse a = .error e) :
    parse (a ++ " \n;" ++ b) = .error e := by
  have lexemes := Lexeme.tokenize_boundary ha b
  have first : statements (chunks as) = .error e := by simpa [parse, ha] using h
  simp only [parse, lexemes, hb, relocateResult_ok, Except.map]
  rw [statements_semicolon, first]
  rfl

/-- Statements are isolated from each other: of two scripts with a boundary between them,
    each is read, and complained about, as if it stood alone. -/
theorem parse_isolated (a b : String) :
    (∀ found others, parse a = .ok found → parse b = .ok others →
      parse (a ++ " \n;" ++ b) = .ok (found ++ others)) ∧
    (∀ found p complaint, parse a = .ok found → parse b = .error ⟨p, complaint⟩ →
      parse (a ++ " \n;" ++ b) = .error ⟨byteLength a.toList + 3 + p, complaint⟩) ∧
    (∀ as bs e, Lexeme.tokenize a = .ok as → Lexeme.tokenize b = .ok bs → parse a = .error e →
      parse (a ++ " \n;" ++ b) = .error e) := by
  refine ⟨?_, ?_, ?_⟩
  · intro found others ha hb
    rw [parse_after_ok ha, hb]
    rfl
  · intro found p complaint ha hb
    rw [parse_after_ok ha, hb, Nat.add_comm _ p]
    rfl
  · intro as bs e ha hb h
    exact parse_after_error ha hb h

/-- A line comment ends the first script, and each part of the law has its case. -/
theorem parse_isolated_drops :
    parse ("DROP TABLE t --" ++ " \n;" ++ "DROP TABLE u") = .ok [.drop ⟨["t"]⟩, .drop ⟨["u"]⟩] ∧
    parse ("DROP TABLE t #" ++ " \n;" ++ "DROP TABLE") = .error ⟨27, .expectedName⟩ ∧
    parse ("DROP TABLE" ++ " \n;" ++ "x") = .error ⟨10, .expectedName⟩ := by
  refine ⟨?_, ?_, ?_⟩
  · exact (parse_isolated "DROP TABLE t --" "DROP TABLE u").1 [.drop ⟨["t"]⟩] [.drop ⟨["u"]⟩]
      (by decide +kernel) (by decide +kernel)
  · exact (parse_isolated "DROP TABLE t #" "DROP TABLE").2.1 [.drop ⟨["t"]⟩] 10 .expectedName
      (by decide +kernel) (by decide +kernel)
  · refine (parse_isolated "DROP TABLE" "x").2.2
      [⟨.keyword "DROP", "DROP", 0, 4⟩, ⟨.keyword "TABLE", "TABLE", 5, 10⟩]
      [⟨.identifier "x", "x", 0, 1⟩] ⟨10, .expectedName⟩ ?_ ?_ ?_
    · decide +kernel
    · decide +kernel
    · decide +kernel

end Script

end TableShift
