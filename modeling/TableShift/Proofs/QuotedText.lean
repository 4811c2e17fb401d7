import TableShift.Proofs.Isolation
import TableShift.Proofs.TokenShapes

/-! # Quoted text

Between two quotes of one kind stand plain characters, doubled quotes, and backslashes with a
character behind each. The first quote that is none of these ends the text, so a text behind an
opening quote is split in one way at most, and a quoted text that cannot be split so never ends.
-/

namespace TableShift

namespace Scan

/-- How a text behind an opening quote is split: the inside and what it means, the closing
    quote, and the rest. -/
structure Closes (quote : Char) (cs body text rest : List Char) : Prop where
  split : cs = body ++ quote :: rest
  decodes : Decodes quote body text
  /-- The closing quote is not the first half of a doubled one. -/
  ends : rest.head? ≠ some quote

variable {quote : Char} {cs body text rest : List Char}

theorem quotedBody?_of_closes (unslashed : quote ≠ '\\') (h : Closes quote cs body text rest) :
    quotedBody? quote cs = some ⟨body ++ [quote], text, rest⟩ := by
  obtain ⟨rfl, decodes, ends⟩ := h
  induction decodes with
  | nil =>
      cases rest with
      | nil => simp [quotedBody?, unslashed]
      | cons d rest => simp [quotedBody?, unslashed, show d ≠ quote by simpa using ends]
  | escaped d _ ih => simp [quotedBody?, ih, Quoted.cons]
  | doubled _ ih => simp [quotedBody?, unslashed, ih, Quoted.cons]
  | @plain c body text unescaped inside _ ih =>
      -- The text is not at its end: the closing quote is still to come.
      obtain ⟨d, more, next⟩ := List.exists_cons_of_ne_nil
        (List.append_ne_nil_of_right_ne_nil body (List.cons_ne_nil quote rest))
      rw [next] at ih
      rw [List.cons_append, next]
      simp [quotedBody?, unescaped, inside, ih, Quoted.cons]

theorem head?_of_quotedBody? {q : Quoted} (h : quotedBody? quote cs = some q) :
    q.rest.head? ≠ some quote := by
  fun_induction quotedBody? quote cs generalizing q with
  | case1 | case2 | case4 => contradiction
  | case3 =>
      cases h
      simp
  | case7 d cs undoubled =>
      cases h
      simpa using undoubled
  | case5 d cs ih | case6 cs _ ih | case8 c d cs _ _ ih =>
      obtain ⟨inner, found, rfl⟩ := Option.map_eq_some_iff.mp h
      exact (ih found :)

theorem closes_of_quotedBody? {q : Quoted} (h : quotedBody? quote cs = some q) :
    ∃ body, q.taken = body ++ [quote] ∧ Closes quote cs body q.text q.rest := by
  obtain ⟨body, taken, decodes⟩ := decodes_of_quotedBody? h
  refine ⟨body, taken, ?_, decodes, head?_of_quotedBody? h⟩
  rw [← append_of_quotedBody? h, taken, List.append_assoc, List.singleton_append]

theorem Closes.unique (unslashed : quote ≠ '\\') (h : Closes quote cs body text rest)
    {body' text' rest' : List Char} (h' : Closes quote cs body' text' rest') :
    body = body' ∧ text = text' ∧ rest = rest' := by
  have same := (quotedBody?_of_closes unslashed h).symm.trans (quotedBody?_of_closes unslashed h')
  simpa using same

theorem ne_backslash_of_kind (kind : quote = '\'' ∨ quote = '"') : quote ≠ '\\' := by
  rcases kind with rfl | rfl <;> decide

theorem quoted_of_quote (kind : quote = '\'' ∨ quote = '"') (cs : List Char) :
    quoted (quote :: cs) =
      match quotedBody? quote cs with
      | some q => .found ⟨quote :: q.taken, q.text, q.rest⟩
      | none => .broken := by
  unfold quoted
  exact if_pos kind

/-- Quoted text is found exactly if the text behind its first quote has a split. -/
theorem quoted_eq_found_iff (kind : quote = '\'' ∨ quote = '"') {q : Quoted} :
    quoted (quote :: cs) = .found q ↔
      ∃ body, q.taken = quote :: (body ++ [quote]) ∧ Closes quote cs body q.text q.rest := by
  have unslashed := ne_backslash_of_kind kind
  rw [quoted_of_quote kind]
  constructor
  · intro h
    split at h
    next found =>
      cases h
      obtain ⟨body, taken, closes⟩ := closes_of_quotedBody? found
      exact ⟨body, congrArg (quote :: ·) taken, closes⟩
    next => contradiction
  · rintro ⟨body, taken, closes⟩
    obtain ⟨taken, text, rest⟩ := q
    subst taken
    rw [quotedBody?_of_closes unslashed closes]

theorem quoted_eq_broken_iff (kind : quote = '\'' ∨ quote = '"') :
    quoted (quote :: cs) = .broken ↔ ¬ ∃ body text rest, Closes quote cs body text rest := by
  have unslashed := ne_backslash_of_kind kind
  rw [quoted_of_quote kind]
  constructor
  · rintro h ⟨body, text, rest, closes⟩
    rw [quotedBody?_of_closes unslashed closes] at h
    contradiction
  · intro open_
    split
    next found =>
      obtain ⟨body, -, closes⟩ := closes_of_quotedBody? found
      exact absurd ⟨body, _, _, closes⟩ open_
    next => rfl

theorem token?_of_quote (kind : quote = '\'' ∨ quote = '"') (cs : List Char) :
    token? (quote :: cs) =
      match quoted (quote :: cs) with
      | .found q => some ⟨.literal (.string (.ofList q.text)), .ofList q.text, q.taken, q.rest⟩
      | _ => none := by
  have unnamed : backQuoted? (quote :: cs) = none := by
    rcases kind with rfl | rfl <;> rfl
  have begun : quoted (quote :: cs) ≠ .absent := by
    rw [quoted_of_quote kind]
    split <;> simp
  rw [token?, unnamed, stringLiteral]
  cases attempt : quoted (quote :: cs) with
  | found | broken => rfl
  | absent => exact absurd attempt begun

theorem leading_of_quote (kind : quote = '\'' ∨ quote = '"') (cs : List Char) :
    Gap.leading (quote :: cs) = ([], quote :: cs) := by
  apply Gap.leading_of_piece?_none
  rcases kind with rfl | rfl <;> rfl

theorem startsComment_of_quote (kind : quote = '\'' ∨ quote = '"') (cs : List Char) :
    Lexeme.startsComment (quote :: cs) = false := by
  rcases kind with rfl | rfl <;> rfl

theorem tokenize_of_broken (kind : quote = '\'' ∨ quote = '"')
    (h : quoted (quote :: cs) = .broken) :
    Lexeme.tokenize (.ofList (quote :: cs)) = .error ⟨0, .unterminatedQuote⟩ := by
  have nothing : token? (quote :: cs) = none := by
    rw [token?_of_quote kind, h]
  have complaint : Lexeme.complaintAt (quote :: cs) = .unterminatedQuote := by
    rcases kind with rfl | rfl <;> rfl
  have failed : Lexeme.scanFrom 0 (quote :: cs) = .error ⟨0, .unterminatedQuote⟩ := by
    rw [Lexeme.scanFrom_eq, leading_of_quote kind]
    simp only [List.isEmpty_cons, startsComment_of_quote kind, nothing, complaint, byteLength]
    rfl
  rw [Lexeme.tokenize, String.toList_ofList, failed]

/-- Quoted text is found exactly if the text behind its first quote is split into an inside made
    of plain characters, doubled quotes and backslashes with a character behind each, a quote,
    and a rest that begins with no quote. There is one such split at most; it tells what is
    taken, meant and left. Without one, the quoted text is unterminated. -/
theorem quoted_has_grammar (quote : Char) (kind : quote = '\'' ∨ quote = '"') (cs : List Char) :
    (∀ q, quoted (quote :: cs) = .found q ↔
      ∃ body, q.taken = quote :: (body ++ [quote]) ∧ Closes quote cs body q.text q.rest) ∧
    (∀ body text rest, Closes quote cs body text rest →
      ∀ body' text' rest', Closes quote cs body' text' rest' →
        body = body' ∧ text = text' ∧ rest = rest') ∧
    ((¬ ∃ body text rest, Closes quote cs body text rest) →
      quoted (quote :: cs) = .broken ∧
        Lexeme.tokenize (.ofList (quote :: cs)) = .error ⟨0, .unterminatedQuote⟩) ∧
    (unescape 'n' = '\n' ∧ unescape 't' = '\t' ∧ unescape 'r' = '\r' ∧ unescape '0' = '\x00' ∧
      ∀ d ∉ ['n', 't', 'r', '0'], unescape d = d) := by
  refine ⟨fun q => quoted_eq_found_iff kind, ?_, ?_, rfl, rfl, rfl, rfl, ?_⟩
  · intro body text rest closes body' text' rest' closes'
    exact closes.unique (ne_backslash_of_kind kind) closes'
  · intro open_
    have broken := (quoted_eq_broken_iff kind).mpr open_
    exact ⟨broken, tokenize_of_broken kind broken⟩
  · intro d plain
    unfold unescape
    split <;> simp_all

/-- A doubled quote, a quote behind a backslash and a line feed in a text before another one,
    and a text whose last quote stands behind a backslash. -/
theorem quoted_has_grammar_escapes :
    quoted "'a''b\\'\\n' 'c'".toList =
        .found ⟨"'a''b\\'\\n'".toList, "a'b'\n".toList, " 'c'".toList⟩ ∧
      (∀ body text rest, Closes '\'' "a''b\\'\\n' 'c'".toList body text rest →
        text = "a'b'\n".toList ∧ rest = " 'c'".toList) ∧
      quoted "\"a\\\"".toList = .broken ∧
      Lexeme.tokenize "\"a\\\"" = .error ⟨0, .unterminatedQuote⟩ := by
  obtain ⟨found, unique, -, -⟩ :=
    quoted_has_grammar '\'' (.inl rfl) "a''b\\'\\n' 'c'".toList
  obtain ⟨-, -, unterminated, -⟩ := quoted_has_grammar '"' (.inr rfl) "a\\\"".toList
  have closes : Closes '\'' "a''b\\'\\n' 'c'".toList "a''b\\'\\n".toList "a'b'\n".toList
      " 'c'".toList :=
    ⟨rfl, .plain (by decide) (by decide) (.doubled (.plain (by decide) (by decide)
      (.escaped '\'' (.escaped 'n' .nil)))), by decide⟩
  have open_ : ¬ ∃ body text rest, Closes '"' "a\\\"".toList body text rest :=
    (quoted_eq_broken_iff (.inr rfl)).mp (by decide)
  refine ⟨(found ⟨_, _, _⟩).mpr ⟨_, rfl, closes⟩, ?_, unterminated open_⟩
  intro body text rest other
  obtain ⟨-, rfl, rfl⟩ := unique _ _ _ closes _ _ _ other
  exact ⟨rfl, rfl⟩

end Scan

end TableShift
