import TableShift.Schema.Command

/-! # Literals read back

A single-quoted literal is read from left to right: a backslash makes a backslash or a
quote behind it plain, and the first quote that is not plain ends the literal. Every text
that was quoted is read back in full, whatever follows it. So the names in the code of a
key tell which key it is.
-/

namespace TableShift

/-! ## Reading a literal -/

/-- The text up to the quote that ends a literal, and what follows that quote. -/
def literalBody? : List Char → Option (List Char × List Char)
  | [] => none
  | '\'' :: cs => some ([], cs)
  | '\\' :: '\\' :: cs => (literalBody? cs).map (Prod.map ('\\' :: ·) id)
  | '\\' :: '\'' :: cs => (literalBody? cs).map (Prod.map ('\'' :: ·) id)
  | c :: cs => (literalBody? cs).map (Prod.map (c :: ·) id)

/-- The text of the literal that a text begins with, and what follows the literal. -/
def literal? (s : String) : Option (String × String) :=
  match s.toList with
  | '\'' :: cs => (literalBody? cs).map (Prod.map String.ofList String.ofList)
  | _ => none

theorem escapeQuoted_cases (c : Char) :
    (c = '\\' ∧ escapeQuoted c = ['\\', '\\']) ∨ (c = '\'' ∧ escapeQuoted c = ['\\', '\'']) ∨
      (c ≠ '\\' ∧ c ≠ '\'' ∧ escapeQuoted c = [c]) := by
  unfold escapeQuoted
  split
  · simp_all
  · split
    · simp_all
    · simp_all

theorem literalBody?_escapeQuoted_append (c : Char) (cs : List Char) :
    literalBody? (escapeQuoted c ++ cs) = (literalBody? cs).map (Prod.map (c :: ·) id) := by
  rcases escapeQuoted_cases c with ⟨rfl, written⟩ | ⟨rfl, written⟩ | ⟨slash, tick, written⟩
  · rw [written]
    rfl
  · rw [written]
    rfl
  · rw [written, List.singleton_append, literalBody?.eq_5 c cs tick]
    · exact fun _ first => absurd first slash
    · exact fun _ first => absurd first slash

theorem literalBody?_flatMap_append (text rest : List Char) :
    literalBody? (text.flatMap escapeQuoted ++ '\'' :: rest) = some (text, rest) := by
  induction text with
  | nil => rfl
  | cons c text ih =>
      rw [List.flatMap_cons, List.append_assoc, literalBody?_escapeQuoted_append, ih]
      rfl

theorem toList_quote_append (text : String) (rest : List Char) :
    (quote text).toList ++ rest =
      '\'' :: (text.toList.flatMap escapeQuoted ++ '\'' :: rest) := by
  simp [quote]

theorem literal?_quote_append (text rest : String) :
    literal? (quote text ++ rest) = some (text, rest) := by
  rw [literal?, String.toList_append, toList_quote_append]
  simp [literalBody?_flatMap_append]

/-- A literal ends where it ends, whatever follows it. -/
theorem quote_append_inj {a b x y : String} (h : quote a ++ x = quote b ++ y) : a = b ∧ x = y := by
  have read := congrArg literal? h
  rw [literal?_quote_append, literal?_quote_append, Option.some.injEq, Prod.mk.injEq] at read
  exact read

/-! ## Names in the code of a key -/

theorem append_ne_of_head? {a b : String} (x y : String) {c d : Char}
    (ha : a.toList.head? = some c) (hb : b.toList.head? = some d) (h : c ≠ d) :
    a ++ x ≠ b ++ y := by
  intro same
  have first := congrArg (fun s : String => s.toList.head?) same
  simp only [String.toList_append, List.head?_append, ha, hb, Option.some_or,
    Option.some.injEq] at first
  exact h first

theorem head?_quote (text : String) : (quote text).toList.head? = some '\'' := by
  simp [quote]

theorem joinWith_quote_append_inj {xs ys : List String} {x y : String} (hx : xs ≠ [])
    (hy : ys ≠ [])
    (h : joinWith ", " (xs.map quote) ++ ("]" ++ x) = joinWith ", " (ys.map quote) ++ ("]" ++ y)) :
    xs = ys ∧ x = y := by
  have several (a b : String) (more : List String) (z : String) :
      joinWith ", " ((a :: b :: more).map quote) ++ z =
        quote a ++ (", " ++ (joinWith ", " ((b :: more).map quote) ++ z)) := by
    simp only [List.map_cons, joinWith, String.append_assoc]
  induction xs generalizing ys with
  | nil => exact absurd rfl hx
  | cons a xs ih =>
      obtain ⟨b, ys, rfl⟩ := List.exists_cons_of_ne_nil hy
      cases xs with
      | nil =>
          cases ys with
          | nil =>
              obtain ⟨rfl, rest⟩ := quote_append_inj h
              exact ⟨rfl, (String.append_right_inj _).mp rest⟩
          | cons b' ys =>
              rw [several] at h
              obtain ⟨-, rest⟩ := quote_append_inj h
              exact absurd rest (append_ne_of_head? _ _ rfl rfl (by decide))
      | cons a' xs =>
          rw [several] at h
          cases ys with
          | nil =>
              obtain ⟨-, rest⟩ := quote_append_inj h
              exact absurd rest (append_ne_of_head? _ _ rfl rfl (by decide))
          | cons b' ys =>
              rw [several] at h
              obtain ⟨rfl, rest⟩ := quote_append_inj h
              obtain ⟨tails, more⟩ := ih (List.cons_ne_nil _ _) (List.cons_ne_nil _ _)
                ((String.append_right_inj _).mp rest)
              exact ⟨congrArg (a :: ·) tails, more⟩

/-- Several names stand in brackets, one name does not. -/
theorem quoteNames_append_inj {xs ys : List String} {x y : String} (hx : xs ≠ []) (hy : ys ≠ [])
    (h : quoteNames xs ++ x = quoteNames ys ++ y) : xs = ys ∧ x = y := by
  have list (a b : String) (more : List String) (z : String) :
      quoteNames (a :: b :: more) ++ z =
        "[" ++ (joinWith ", " ((a :: b :: more).map quote) ++ ("]" ++ z)) := by
    simp only [quoteNames, quoteList, String.append_assoc]
  match xs, ys with
  | [], _ => exact absurd rfl hx
  | _, [] => exact absurd rfl hy
  | [a], [b] =>
      obtain ⟨rfl, rest⟩ := quote_append_inj h
      exact ⟨rfl, rest⟩
  | [a], b :: b' :: ys =>
      rw [list] at h
      exact absurd h (append_ne_of_head? _ _ (head?_quote a) rfl (by decide))
  | a :: a' :: xs, [b] =>
      rw [list] at h
      exact absurd h.symm (append_ne_of_head? _ _ (head?_quote b) rfl (by decide))
  | a :: a' :: xs, b :: b' :: ys =>
      rw [list, list] at h
      exact joinWith_quote_append_inj hx hy ((String.append_right_inj _).mp h)

theorem KeyKind.method_append_inj {kind other : KeyKind} {x y : String}
    (h : kind.method ++ x = other.method ++ y) : kind = other ∧ x = y := by
  have chars : kind.method.toList.take 2 = other.method.toList.take 2 := by
    have begun := congrArg (fun s : String => s.toList.take 2) h
    have whole (k : KeyKind) (z : String) :
        (k.method ++ z).toList.take 2 = k.method.toList.take 2 := by
      rw [String.toList_append]
      exact List.take_append_of_le_length (by cases k <;> decide)
    simpa only [whole] using begun
  obtain rfl : kind = other := by
    cases kind <;> cases other <;> first | rfl | exact absurd chars (by decide)
  exact ⟨rfl, (String.append_right_inj _).mp h⟩

/-- The name of a key as it stands in its code: a literal, or the word that stands for none. -/
theorem nameCode_append_inj {name other : Option String} {x y : String}
    (h : (name.map quote).getD "null" ++ x = (other.map quote).getD "null" ++ y) :
    name = other ∧ x = y := by
  cases name with
  | none =>
      cases other with
      | none => exact ⟨rfl, (String.append_right_inj _).mp h⟩
      | some b => exact absurd h (append_ne_of_head? _ _ rfl (head?_quote b) (by decide))
  | some a =>
      cases other with
      | none => exact absurd h (append_ne_of_head? _ _ (head?_quote a) rfl (by decide))
      | some b =>
          obtain ⟨rfl, rest⟩ := quote_append_inj h
          exact ⟨rfl, rest⟩

theorem keyCode_eq (kind : KeyKind) (columns : List String) (name : Option String) :
    keyCode kind columns name = "$table->" ++ (kind.method ++ ("(" ++ (quoteNames columns ++
      (", " ++ ((name.map quote).getD "null" ++ ")"))))) := by
  cases name <;> simp only [keyCode, Option.map, Option.getD, String.append_assoc]

theorem keyCode_inj {kind kind' : KeyKind} {columns columns' : List String}
    {name name' : Option String} (hc : columns ≠ []) (hc' : columns' ≠ [])
    (h : keyCode kind columns name = keyCode kind' columns' name') :
    kind = kind' ∧ columns = columns' ∧ name = name' := by
  rw [keyCode_eq, keyCode_eq] at h
  obtain ⟨kinds, arguments⟩ := KeyKind.method_append_inj ((String.append_right_inj _).mp h)
  obtain ⟨names, more⟩ := quoteNames_append_inj hc hc' ((String.append_right_inj _).mp arguments)
  obtain ⟨last, -⟩ := nameCode_append_inj ((String.append_right_inj _).mp more)
  exact ⟨kinds, names, last⟩

/-- What is quoted is read back in full, whatever follows it. So the code of a key on columns
    tells its kind, its columns and its name. -/
theorem quoted_names_read_back :
    (∀ text rest : String, literal? (quote text ++ rest) = some (text, rest)) ∧
      ∀ (kind kind' : KeyKind) (columns columns' : List String) (name name' : Option String),
        columns ≠ [] → columns' ≠ [] →
          (keyCode kind columns name = keyCode kind' columns' name' ↔
            kind = kind' ∧ columns = columns' ∧ name = name') := by
  refine ⟨literal?_quote_append, fun kind kind' columns columns' name name' hc hc' => ?_⟩
  constructor
  · exact keyCode_inj hc hc'
  · rintro ⟨rfl, rfl, rfl⟩
    rfl

/-- A backslash at the end of a name does not reach the quote that closes its literal, one name
    does not pass for two, and no name passes for the lack of one. -/
theorem quoted_names_read_back_hostile :
    literal? (quote "a\\" ++ "', 'b'") = some ("a\\", "', 'b'") ∧
      keyCode .index ["a', 'b"] none ≠ keyCode .index ["a", "b"] none ∧
      keyCode .unique ["a"] (some "null") ≠ keyCode .unique ["a"] none := by
  refine ⟨quoted_names_read_back.1 _ _, fun same => ?_, fun same => ?_⟩
  · have told := (quoted_names_read_back.2 .index .index ["a', 'b"] ["a", "b"] none none
      (by decide) (by decide)).mp same
    exact absurd told.2.1 (by decide)
  · have told := (quoted_names_read_back.2 .unique .unique ["a"] ["a"] (some "null") none
      (by decide) (by decide)).mp same
    exact absurd told.2.2 (by decide)

end TableShift
