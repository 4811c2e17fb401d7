import TableShift.Proofs.CompoundDefaults
import TableShift.Proofs.QuotedText

/-! # Printed strings

A string is printed with its quotes doubled and its backslashes as they are, but a backslash
that is read joins the character behind it. So exactly the strings without a backslash are
read back, alone as well as at their place in a default of several tokens.
-/

namespace TableShift

/-! ## What is printed for a string -/

/-- How a character of a string is printed: a quote twice, every other one as it is. -/
def Value.doubleQuote (c : Char) : List Char :=
  if c = '\'' then ['\'', '\''] else [c]

theorem Value.toList_quoteSql (s : String) :
    (quoteSql s).toList = '\'' :: (s.toList.flatMap doubleQuote ++ ['\'']) := by
  rw [quoteSql, String.toList_ofList]
  rfl

namespace Scan

open Value (doubleQuote)

theorem decodes_doubleQuote {cs : List Char} (unslashed : '\\' ∉ cs) :
    Decodes '\'' (cs.flatMap doubleQuote) cs := by
  induction cs with
  | nil => exact .nil
  | cons c cs ih =>
      rw [List.mem_cons, not_or] at unslashed
      rw [List.flatMap_cons, doubleQuote]
      split
      next quote =>
        rw [quote]
        exact .doubled (ih unslashed.2)
      next plain => exact .plain (Ne.symm unslashed.1) plain (ih unslashed.2)

theorem eq_backslash_of_unescape {d : Char} (h : unescape d = '\\') : d = '\\' := by
  unfold unescape at h
  split at h <;> simp_all

theorem Decodes.exists_of_backslash {body text : List Char} (h : Decodes '\'' body ('\\' :: text)) :
    ∃ more, body = '\\' :: '\\' :: more ∧ Decodes '\'' more text := by
  generalize whole : '\\' :: text = meaning at h
  cases h with
  | nil => contradiction
  | @escaped d more text' decodes =>
      obtain ⟨first, rfl⟩ := List.cons.inj whole
      rw [eq_backslash_of_unescape first.symm]
      exact ⟨more, rfl, decodes⟩
  | doubled => exact absurd (List.cons.inj whole).1 (by decide)
  | plain unescaped => exact absurd (List.cons.inj whole).1.symm unescaped

theorem exists_of_doubleQuote {xs cs rest : List Char}
    (h : '\\' :: xs = cs.flatMap doubleQuote ++ '\'' :: rest) :
    ∃ more, cs = '\\' :: more ∧ xs = more.flatMap doubleQuote ++ '\'' :: rest := by
  cases cs with
  | nil => exact absurd (List.cons.inj h).1 (by decide)
  | cons c more =>
      rw [List.flatMap_cons, doubleQuote] at h
      split at h
      next => exact absurd (List.cons.inj h).1 (by decide)
      next =>
        obtain ⟨rfl, tail⟩ := List.cons.inj h
        exact ⟨more, rfl, tail⟩

/-- Backslashes in front of a printed string are too many: each of them takes two of those that
    are printed, so that later ones are missing. -/
theorem not_decodes_of_replicate {cs body rest after : List Char} (n : Nat)
    (printed : body ++ '\'' :: after = cs.flatMap doubleQuote ++ '\'' :: rest) :
    ¬ Decodes '\'' body (List.replicate (n + 1) '\\' ++ cs) := by
  intro decodes
  -- Two printed backslashes mean one, so the number of those still missing grows.
  induction size : cs.length using Nat.strongRecOn generalizing cs body n with
  | ind _ ih =>
      obtain ⟨body, rfl, later⟩ := decodes.exists_of_backslash
      obtain ⟨more, rfl, behindFirst⟩ := exists_of_doubleQuote printed
      obtain ⟨fewer, rfl, behindSecond⟩ := exists_of_doubleQuote behindFirst
      have regrouped : List.replicate n '\\' ++ '\\' :: '\\' :: fewer =
          List.replicate (n + 1 + 1) '\\' ++ fewer := by
        simp [List.replicate_succ']
      have fewerLeft : fewer.length < ('\\' :: '\\' :: fewer).length := by
        simp only [List.length_cons]
        omega
      refine ih fewer.length (size ▸ fewerLeft) (n + 1) behindSecond ?_ rfl
      rw [← regrouped]
      exact later

theorem Decodes.exists_of_unslashed {c : Char} {cs body rest after : List Char}
    (unslashed : c ≠ '\\') (decodes : Decodes '\'' body (c :: cs))
    (printed : body ++ '\'' :: after = (c :: cs).flatMap doubleQuote ++ '\'' :: rest) :
    ∃ more, more ++ '\'' :: after = cs.flatMap doubleQuote ++ '\'' :: rest ∧
      Decodes '\'' more cs := by
  rw [List.flatMap_cons, doubleQuote] at printed
  generalize meaning : c :: cs = text at decodes
  split at printed
  next quote =>
    subst quote
    cases decodes with
    | nil => contradiction
    | escaped => exact absurd (List.cons.inj printed).1 (by decide)
    | @doubled more text decodes =>
        obtain rfl := (List.cons.inj meaning).2
        exact ⟨more, (List.cons.inj (List.cons.inj printed).2).2, decodes⟩
    | plain _ inside => exact absurd (List.cons.inj printed).1 inside
  next unquoted =>
    cases decodes with
    | nil => contradiction
    | escaped => exact absurd (List.cons.inj printed).1.symm unslashed
    | doubled => exact absurd (List.cons.inj printed).1.symm unquoted
    | @plain d more text _ _ decodes =>
        obtain rfl := (List.cons.inj meaning).2
        exact ⟨more, (List.cons.inj printed).2, decodes⟩

theorem notMem_of_decodes_doubleQuote {cs body rest after : List Char}
    (printed : body ++ '\'' :: after = cs.flatMap doubleQuote ++ '\'' :: rest)
    (decodes : Decodes '\'' body cs) : '\\' ∉ cs := by
  induction cs generalizing body with
  | nil => exact List.not_mem_nil
  | cons c cs ih =>
      by_cases slash : c = '\\'
      · subst slash
        obtain ⟨body, rfl, later⟩ := decodes.exists_of_backslash
        obtain ⟨more, same, behindFirst⟩ := exists_of_doubleQuote printed
        obtain rfl : cs = more := (List.cons.inj same).2
        obtain ⟨fewer, rfl, behindSecond⟩ := exists_of_doubleQuote behindFirst
        exact absurd later (not_decodes_of_replicate 0 behindSecond)
      · obtain ⟨more, printed, later⟩ := decodes.exists_of_unslashed slash printed
        exact List.not_mem_cons_of_ne_of_not_mem (Ne.symm slash) (ih printed later)

theorem closes_quoteSql {cs rest : List Char} (unslashed : '\\' ∉ cs)
    (ends : rest.head? ≠ some '\'') :
    Closes '\'' (cs.flatMap doubleQuote ++ '\'' :: rest) (cs.flatMap doubleQuote) cs rest :=
  ⟨rfl, decodes_doubleQuote unslashed, ends⟩

theorem token?_quoteSql {s : String} {rest : List Char} (unslashed : '\\' ∉ s.toList)
    (ends : rest.head? ≠ some '\'') :
    token? ((Value.quoteSql s).toList ++ rest) =
      some ⟨.literal (.string s), s, (Value.quoteSql s).toList, rest⟩ := by
  have found : quoted ('\'' :: (s.toList.flatMap doubleQuote ++ '\'' :: rest)) =
      .found ⟨(Value.quoteSql s).toList, s.toList, rest⟩ :=
    (quoted_eq_found_iff (.inl rfl)).mpr
      ⟨_, Value.toList_quoteSql s, closes_quoteSql unslashed ends⟩
  rw [Value.toList_quoteSql, List.cons_append, List.append_assoc, List.singleton_append,
    token?_of_quote (.inl rfl), found]
  simp [Value.toList_quoteSql]

theorem token?_quoteSql_iff (s : String) {rest : List Char} (ends : rest.head? ≠ some '\'') :
    (∃ scan, token? ((Value.quoteSql s).toList ++ rest) = some scan ∧
      scan.token = .literal (.string s)) ↔ '\\' ∉ s.toList := by
  constructor
  · rintro ⟨scan, read, meaning⟩
    rw [Value.toList_quoteSql, List.cons_append, List.append_assoc, List.singleton_append,
      token?_of_quote (.inl rfl)] at read
    split at read
    next q found =>
      cases read
      obtain ⟨body, -, closes⟩ := (quoted_eq_found_iff (.inl rfl)).mp found
      obtain rfl : String.ofList q.text = s := by simpa using meaning
      refine notMem_of_decodes_doubleQuote closes.split.symm ?_
      simpa using closes.decodes
    next => contradiction
  · intro unslashed
    exact ⟨_, token?_quoteSql unslashed ends, rfl⟩

end Scan

/-! ## Printed strings alone and in a default -/

namespace Lexeme

section Quote

variable {quote : Char} (kind : quote = '\'' ∨ quote = '"') {cs : List Char}
include kind

theorem mergeCompounds_of_quote {s : Scan} (found : Scan.token? (quote :: cs) = some s)
    (later : List Lexeme) :
    mergeCompounds (ofScan 0 [] s :: later) = ofScan 0 [] s :: mergeCompounds later := by
  have unspelled : (ofScan 0 [] s).token.keyword? = none := by
    rw [Scan.token?_of_quote kind] at found
    split at found
    next =>
      cases found
      rfl
    next => contradiction
  simpa [mergeCompounds] using mergeCompounds_append unspelled [] later

theorem tokenize_of_token?_quote {s : Scan} (found : Scan.token? (quote :: cs) = some s)
    (ends : s.rest = []) : tokenize (.ofList (quote :: cs)) = .ok [ofScan 0 [] s] := by
  have read := scanFrom_of_token 0 (Scan.leading_of_quote kind cs)
    (Scan.startsComment_of_quote kind cs) found
  have nothing (offset : Nat) : scanFrom offset [] = .ok [] := by
    rw [scanFrom_eq, Gap.leading_of_piece?_none rfl]
    rfl
  rw [ends, nothing] at read
  have alone := mergeCompounds_of_quote kind found []
  rw [mergeCompounds] at alone
  rw [tokenize, String.toList_ofList, read]
  exact congrArg Except.ok alone

theorem exists_of_tokenize_quote {ls : List Lexeme}
    (h : tokenize (.ofList (quote :: cs)) = .ok ls) :
    ∃ s later, Scan.token? (quote :: cs) = some s ∧ ls = ofScan 0 [] s :: later := by
  rw [tokenize, String.toList_ofList] at h
  cases scanned : scanFrom 0 (quote :: cs) with
  | error e => simp [scanned] at h
  | ok read =>
      have first := exists_of_scanFrom scanned
      rw [Scan.leading_of_quote kind] at first
      rcases first with ⟨ended, -⟩ | ⟨s, later, -, found, -, rfl⟩
      · contradiction
      · simp only [scanned, Except.ok.injEq] at h
        exact ⟨s, mergeCompounds later, found, h ▸ mergeCompounds_of_quote kind found later⟩

end Quote

theorem tokenize_quoteSql_iff (s : String) :
    (∃ l, tokenize (Value.quoteSql s) = .ok [l] ∧ l.token = .literal (.string s)) ↔
      '\\' ∉ s.toList := by
  have split : Value.quoteSql s =
      .ofList ('\'' :: (s.toList.flatMap Value.doubleQuote ++ ['\''])) := by
    rw [← Value.toList_quoteSql, String.ofList_toList]
  have ends : [].head? ≠ some '\'' := by simp
  constructor
  · rintro ⟨l, read, meaning⟩
    rw [split] at read
    obtain ⟨scan, later, found, same⟩ := exists_of_tokenize_quote (.inl rfl) read
    obtain rfl : l = ofScan 0 [] scan := (List.cons.inj same).1
    rw [← Scan.token?_quoteSql_iff s ends, List.append_nil, Value.toList_quoteSql]
    exact ⟨scan, found, meaning⟩
  · intro unslashed
    have found := Scan.token?_quoteSql unslashed ends
    rw [List.append_nil, Value.toList_quoteSql] at found
    rw [split]
    exact ⟨_, tokenize_of_token?_quote (.inl rfl) found rfl, rfl⟩

/-- The text of the lexemes that stand before others in an expression. -/
def textBefore (ls : List Lexeme) : String :=
  String.join (ls.map (·.token.sql ++ " "))

/-- The text of an expression split at one of its lexemes: a blank or nothing is behind it. -/
theorem exists_expressionText_append (before after : List Lexeme) (l : Lexeme) :
    ∃ back, expressionText (before ++ l :: after) = textBefore before ++ (l.token.sql ++ back) ∧
      (back = "" ∨ ∃ more, back = " " ++ more) := by
  induction before with
  | nil =>
      cases after with
      | nil => exact ⟨"", by simp [expressionText, joinWith, textBefore], .inl rfl⟩
      | cons next after =>
          refine ⟨" " ++ expressionText (next :: after), ?_, .inr ⟨_, rfl⟩⟩
          simp [expressionText, joinWith, textBefore, String.append_assoc]
  | cons b before ih =>
      obtain ⟨back, split, behind⟩ := ih
      refine ⟨back, ?_, behind⟩
      have first : expressionText (b :: (before ++ l :: after)) =
          b.token.sql ++ " " ++ expressionText (before ++ l :: after) := by
        cases before <;> rfl
      rw [List.cons_append, first, split]
      simp [textBefore, String.append_assoc]

end Lexeme

/-- A printed string alone is read as one lexeme, the string, exactly if no backslash is in it.
    At its place in the text of a default of several tokens, the printed string is read as the
    string on the same condition. -/
theorem Value.printed_string_read_back_iff (s : String) :
    ((∃ l, Lexeme.tokenize (Value.string s).sql = .ok [l] ∧ l.token = .literal (.string s)) ↔
      '\\' ∉ s.toList) ∧
    ∀ (value : CompoundValue) (before after : List Lexeme) (l : Lexeme),
      value.inside = before ++ l :: after → l.token = .literal (.string s) →
      ∃ back,
        (∀ rest stop, Cursor.optionValue ⟨value.lexemes ++ rest, stop⟩ =
          .ok (.expr ((value.function.map Lexeme.raw).getD "" ++ "(" ++ Lexeme.textBefore before ++
            ((Value.string s).sql ++ back)), ⟨rest, stop⟩)) ∧
        ((∃ scan, Scan.token? ((Value.string s).sql ++ back).toList = some scan ∧
          scan.token = .literal (.string s)) ↔ '\\' ∉ s.toList) := by
  refine ⟨Lexeme.tokenize_quoteSql_iff s, ?_⟩
  intro value before after l inside literal
  obtain ⟨back, split, behind⟩ := Lexeme.exists_expressionText_append before after l
  have printed : l.token.sql = (Value.string s).sql := by rw [literal, Token.sql]
  refine ⟨back ++ ")", ?_, ?_⟩
  · intro rest stop
    rw [value.optionValue_append, CompoundValue.sql, inside, split, printed]
    simp only [String.append_assoc]
  · have ends : (back ++ ")").toList.head? ≠ some '\'' := by
      rcases behind with rfl | ⟨more, rfl⟩
      · decide
      · simp
    rw [String.toList_append]
    exact Scan.token?_quoteSql_iff s ends

/-- The default `concat(note, 'it''s')`. -/
def CompoundValue.quotedNote : CompoundValue where
  function := some ⟨.identifier "concat", "concat", 0, 6⟩
  opening := ⟨.punct '(', "(", 6, 7⟩
  closing := ⟨.punct ')', ")", 20, 21⟩
  inside := [⟨.identifier "note", "note", 7, 11⟩, ⟨.punct ',', ",", 11, 12⟩,
    ⟨.literal (.string "it's"), "it's", 13, 20⟩]
  callable := by simp [Token.Callable.identifier]
  opens := rfl
  closes := rfl
  balanced := .flat ⟨rfl, rfl⟩ (.flat ⟨rfl, rfl⟩ (.flat ⟨rfl, rfl⟩ .nil))

theorem Value.printed_string_read_back_note :
    Lexeme.tokenize "concat(note, 'it''s')" = .ok CompoundValue.quotedNote.lexemes ∧
      (∃ l, Lexeme.tokenize "'it''s'" = .ok [l] ∧ l.token = .literal (.string "it's")) ∧
      ∃ back,
        Cursor.optionValue ⟨CompoundValue.quotedNote.lexemes, 21⟩ =
          .ok (.expr ("concat(note , " ++ ("'it''s'" ++ back)), ⟨[], 21⟩) ∧
        ∃ scan, Scan.token? ("'it''s'" ++ back).toList = some scan ∧
          scan.token = .literal (.string "it's") := by
  obtain ⟨alone, inDefault⟩ := Value.printed_string_read_back_iff "it's"
  obtain ⟨back, value, atPlace⟩ := inDefault CompoundValue.quotedNote
    [⟨.identifier "note", "note", 7, 11⟩, ⟨.punct ',', ",", 11, 12⟩] [] _ rfl rfl
  exact ⟨by decide +kernel, alone.mpr (by decide), back, value [] 21, atPlace.mpr (by decide)⟩

/-- A script with a backslash between two letters in a default. The text that is printed for it
    means the two letters alone. -/
theorem Value.printed_string_lost_backslash :
    Lexeme.tokenize "'a\\\\b'" = .ok [⟨.literal (.string "a\\b"), "a\\b", 0, 6⟩] ∧
      (¬ ∃ l, Lexeme.tokenize (Value.string "a\\b").sql = .ok [l] ∧
        l.token = .literal (.string "a\\b")) ∧
      Lexeme.tokenize (Value.string "a\\b").sql =
        .ok [⟨.literal (.string "ab"), "ab", 0, 5⟩] ∧
      Script.parse "CREATE TABLE t (c VARCHAR(9) DEFAULT ('a\\\\b'))" =
        .ok [.create ⟨"t", [⟨some "c", some ⟨"VARCHAR", ["9"], []⟩,
          [.keyValue "DEFAULT" (.expr "('a\\b')")], none⟩]⟩] := by
  refine ⟨by decide +kernel, ?_, by decide +kernel, by decide +kernel⟩
  exact fun read => absurd ((Lexeme.tokenize_quoteSql_iff "a\\b").mp read) (by decide)

end TableShift
