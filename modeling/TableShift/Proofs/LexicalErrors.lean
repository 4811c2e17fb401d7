import Mathlib.Logic.Relation
import TableShift.Proofs.QuotedText

/-! # Where reading gets stuck

Reading takes a piece of a gap or a token off the head of a text and goes on behind it. It
fails exactly if it gets to a text at whose head neither stands, and complains about that
place. Why it is stuck there is not handed over by the scanners: it is judged again from the
characters at hand. The judgement is right except before a double quote behind a letter that
announces a radix.
-/

namespace TableShift

/-! ## Texts that do not end -/

namespace Gap

theorem throughClose?_eq_none_iff {cs : List Char} :
    throughClose? cs = none ↔ ¬ ['*', '/'] <:+: cs := by
  constructor
  · intro h closed
    induction cs with
    | nil => simp at closed
    | cons c cs ih =>
        rw [throughClose?] at h
        split at h
        next => contradiction
        next open_ =>
          split at h
          next => contradiction
          next absent =>
            rcases List.infix_cons_iff.mp closed with here | later
            · obtain ⟨more, text⟩ := here
              cases text
              simp at open_
            · exact ih absent later
  · intro open_
    cases found : throughClose? cs with
    | none => rfl
    | some split =>
        obtain ⟨body, taken, -⟩ := exists_of_throughClose? found
        have whole := append_of_throughClose? found
        rw [taken] at whole
        exact absurd ⟨body, split.2, whole⟩ open_

end Gap

namespace Scan

/-- A text behind an opening quote in which no quote closes. -/
def Unclosed (quote : Char) (cs : List Char) : Prop :=
  ¬ ∃ body text rest, Closes quote cs body text rest

/-- The letters that announce the radix of the quoted text behind them. -/
def radixLetters : List Char := ['b', 'B', 'x', 'X']

theorem isSome_radixOf?_iff {c : Char} : (radixOf? c).isSome = true ↔ c ∈ radixLetters := by
  unfold radixOf? radixLetters
  split
  next two => simpa using two.elim .inl fun upper => .inr (.inl upper)
  next notTwo =>
    split
    next sixteen => simpa using .inr (.inr sixteen)
    next notSixteen =>
      simp only [not_or] at notTwo notSixteen
      simp [notTwo, notSixteen]

/-- The texts that begin with a quote, or with a letter for the radix and a quote, and in which
    that quote is never closed. -/
inductive OpenQuote : List Char → Prop where
  | name {cs : List Char} (open_ : backQuote ∉ cs) : OpenQuote (backQuote :: cs)
  | text {quote : Char} {cs : List Char} (kind : quote = '\'' ∨ quote = '"')
      (open_ : Unclosed quote cs) : OpenQuote (quote :: cs)
  | radix {letter quote : Char} {cs : List Char} (announces : letter ∈ radixLetters)
      (kind : quote = '\'' ∨ quote = '"') (open_ : Unclosed quote cs) :
      OpenQuote (letter :: quote :: cs)

/-- The texts that begin with a block comment that does not end. -/
inductive OpenComment : List Char → Prop where
  | intro {cs : List Char} (open_ : ¬ ['*', '/'] <:+: cs) : OpenComment ('/' :: '*' :: cs)

theorem openComment_iff {cs : List Char} (gapless : Gap.piece? cs = none) :
    OpenComment cs ↔ Lexeme.startsComment cs = true := by
  constructor
  · rintro ⟨open_⟩
    rfl
  · intro starts
    match cs with
    | [] | [_] => simp [Lexeme.startsComment] at starts
    | c :: d :: cs =>
        obtain ⟨rfl, rfl⟩ : c = '/' ∧ d = '*' := by simpa [Lexeme.startsComment] using starts
        refine .intro (Gap.throughClose?_eq_none_iff.mp ?_)
        cases closed : Gap.throughClose? cs with
        | none => rfl
        | some split => simp [Gap.piece?, closed] at gapless

/-! ## Why no token stands there -/

theorem backQuoted?_eq_none_iff {cs : List Char} :
    backQuoted? (backQuote :: cs) = none ↔ backQuote ∉ cs := by
  cases closing : cs.dropWhile (· != backQuote) with
  | nil =>
      have inside := List.dropWhile_eq_nil_iff.mp closing
      have open_ : backQuote ∉ cs := fun member => by simpa using inside _ member
      simp [backQuoted?, closing, open_]
  | cons close rest =>
      have closed : close = backQuote := by simpa using stop_of_dropWhile closing
      have member : backQuote ∈ cs.dropWhile (· != backQuote) := by simp [closing, closed]
      have inside := (List.dropWhile_suffix (· != backQuote)).mem member
      simp [backQuoted?, closing, inside]

theorem token?_quote_eq_none_iff {quote : Char} (kind : quote = '\'' ∨ quote = '"')
    {cs : List Char} : token? (quote :: cs) = none ↔ Unclosed quote cs := by
  rw [token?_of_quote kind, Unclosed, ← quoted_eq_broken_iff kind]
  have begun : quoted (quote :: cs) ≠ .absent := by
    rw [quoted_of_quote kind]
    split <;> simp
  cases text : quoted (quote :: cs) <;> simp_all

theorem token?_radix_eq_none_iff {letter quote : Char} (announces : letter ∈ radixLetters)
    (kind : quote = '\'' ∨ quote = '"') {cs : List Char} :
    token? (letter :: quote :: cs) = none ↔ Unclosed quote cs := by
  have unnamed : backQuoted? (letter :: quote :: cs) = none := by
    refine if_neg ?_
    rintro rfl
    revert announces
    decide
  have unquoted : stringLiteral (letter :: quote :: cs) = .absent := by
    have plain : ¬ (letter = '\'' ∨ letter = '"') := by
      rintro (rfl | rfl) <;> revert announces <;> decide
    simp [stringLiteral, quoted, plain]
  have begun : quoted (quote :: cs) ≠ .absent := by
    rw [quoted_of_quote kind]
    split <;> simp
  obtain ⟨radix, announced⟩ := Option.isSome_iff_exists.mp (isSome_radixOf?_iff.mpr announces)
  rw [token?, unnamed, unquoted, radixLiteral, Unclosed, ← quoted_eq_broken_iff kind]
  simp only [announced]
  cases text : quoted (quote :: cs) <;> simp_all

end Scan

namespace Lexeme

/-! ## Steps of reading -/

/-- One step of reading: over a piece of a gap or, where none begins, over a token. A slash
    that opens a block comment is no token. -/
inductive Step : List Char → List Char → Prop where
  | gap {cs piece rest : List Char} (found : Gap.piece? cs = some (piece, rest)) : Step cs rest
  | token {cs : List Char} {s : Scan} (gapless : Gap.piece? cs = none)
      (uncommented : startsComment cs = false) (found : Scan.token? cs = some s) : Step cs s.rest

/-- What reading gets to in any number of steps. -/
def Reaches : List Char → List Char → Prop :=
  Relation.ReflTransGen Step

/-- A text at which reading is stuck: it is not at its end, and there is no step. -/
structure Stuck (rest : List Char) : Prop where
  nonempty : rest ≠ []
  still : ∀ after, ¬ Step rest after

theorem stuck_iff {rest : List Char} :
    Stuck rest ↔ rest ≠ [] ∧ Gap.piece? rest = none ∧
      (startsComment rest = true ∨ Scan.token? rest = none) := by
  constructor
  · rintro ⟨nonempty, still⟩
    have gapless : Gap.piece? rest = none := by
      cases found : Gap.piece? rest with
      | none => rfl
      | some split => exact absurd (.gap found) (still split.2)
    refine ⟨nonempty, gapless, ?_⟩
    cases commented : startsComment rest with
    | true => exact .inl rfl
    | false =>
        cases found : Scan.token? rest with
        | none => exact .inr rfl
        | some s => exact absurd (.token gapless commented found) (still s.rest)
  · rintro ⟨nonempty, gapless, tokenless⟩
    refine ⟨nonempty, fun after step => ?_⟩
    cases step <;> simp_all

instance (rest : List Char) : Decidable (Stuck rest) :=
  decidable_of_iff _ stuck_iff.symm

theorem Stuck.gapless {rest : List Char} (h : Stuck rest) : Gap.piece? rest = none :=
  (stuck_iff.mp h).2.1

theorem Stuck.tokenless {rest : List Char} (h : Stuck rest)
    (uncommented : startsComment rest = false) : Scan.token? rest = none := by
  rcases (stuck_iff.mp h).2.2 with commented | tokenless
  · rw [uncommented] at commented
    contradiction
  · exact tokenless

theorem Step.exists_append {cs rest : List Char} (h : Step cs rest) :
    ∃ taken, taken ≠ [] ∧ cs = taken ++ rest := by
  cases h with
  | gap found =>
      exact ⟨_, Gap.ne_nil_of_piece? found, (Gap.append_of_piece? found).symm⟩
  | @token s _ _ found =>
      obtain ⟨split, nonempty⟩ := Scan.splits_of_token? found
      exact ⟨s.taken, nonempty, split.symm⟩

theorem Reaches.exists_append {cs rest : List Char} (h : Reaches cs rest) :
    ∃ before, cs = before ++ rest := by
  induction h with
  | refl => exact ⟨[], rfl⟩
  | tail _ step ih =>
      obtain ⟨before, rfl⟩ := ih
      obtain ⟨taken, -, rfl⟩ := step.exists_append
      exact ⟨before ++ taken, by rw [List.append_assoc]⟩

/-- Reading gets to the end of a text, or it gets stuck. -/
theorem exists_reaches (cs : List Char) : ∃ rest, Reaches cs rest ∧ (rest = [] ∨ Stuck rest) := by
  induction size : cs.length using Nat.strongRecOn generalizing cs with
  | ind _ ih =>
      by_cases step : ∃ after, Step cs after
      · obtain ⟨after, step⟩ := step
        obtain ⟨taken, nonempty, rfl⟩ := step.exists_append
        have positive := List.length_pos_iff.mpr nonempty
        rw [List.length_append] at size
        obtain ⟨rest, further, ended⟩ := ih after.length (by omega) after rfl
        exact ⟨rest, .head step further, ended⟩
      · refine ⟨cs, .refl, ?_⟩
        by_cases nonempty : cs = []
        · exact .inl nonempty
        · exact .inr ⟨nonempty, fun after found => step ⟨after, found⟩⟩

/-- What is said about a text at which reading is stuck. -/
def verdict (rest : List Char) : Complaint :=
  if startsComment rest then .unterminatedComment else complaintAt rest

theorem scanFrom_of_stuck (offset : Nat) {rest : List Char} (h : Stuck rest) :
    scanFrom offset rest = .error ⟨offset, verdict rest⟩ := by
  have visible : rest.isEmpty = false := by simpa using h.nonempty
  rw [scanFrom_eq, Gap.leading_of_piece?_none h.gapless, verdict]
  cases commented : startsComment rest with
  | true => simp [visible, byteLength]
  | false => simp [visible, byteLength, h.tokenless commented]

theorem scanFrom_of_gap (offset : Nat) {cs piece rest : List Char}
    (found : Gap.piece? cs = some (piece, rest)) :
    scanFrom offset cs = scanFrom (offset + byteLength piece) rest := by
  rw [scanFrom_eq, scanFrom_eq (offset + byteLength piece), Gap.leading_of_piece? found]
  simp only [ofScan, byteLength_append, Nat.add_assoc]

/-- Over a step the complaint stays what it is, and where it is. -/
theorem Step.error_iff {cs rest : List Char} (h : Step cs rest) {offset further : Nat}
    (place : offset + byteLength cs = further + byteLength rest) (e : SyntaxError) :
    scanFrom offset cs = .error e ↔ scanFrom further rest = .error e := by
  cases h with
  | @gap piece _ found =>
      have whole := congrArg byteLength (Gap.append_of_piece? found)
      rw [byteLength_append] at whole
      have behind : further = offset + byteLength piece := by omega
      rw [scanFrom_of_gap offset found, behind]
  | @token s gapless uncommented found =>
      have whole := congrArg byteLength (Scan.splits_of_token? found).1
      rw [byteLength_append] at whole
      have behind : (ofScan offset [] s).stop = further := by
        simp only [ofScan, byteLength]
        omega
      rw [scanFrom_of_token offset (Gap.leading_of_piece?_none gapless) uncommented found, behind]
      cases scanFrom further s.rest <;> simp [Except.map]

theorem Reaches.error_iff {cs rest : List Char} (h : Reaches cs rest) {offset further : Nat}
    (place : offset + byteLength cs = further + byteLength rest) (e : SyntaxError) :
    scanFrom offset cs = .error e ↔ scanFrom further rest = .error e := by
  induction h generalizing further with
  | refl =>
      have same : offset = further := by omega
      rw [same]
  | @tail middle _ reached step ih =>
      obtain ⟨before, rfl⟩ := Reaches.exists_append reached
      rw [byteLength_append] at place
      have start : offset + byteLength (before ++ middle) =
          offset + byteLength before + byteLength middle := by
        rw [byteLength_append, Nat.add_assoc]
      rw [ih start]
      exact step.error_iff (by omega) e

/-- Reading fails exactly if it gets stuck, with the complaint about the place where it does. -/
theorem scanFrom_eq_error_iff {offset : Nat} {cs : List Char} {e : SyntaxError} :
    scanFrom offset cs = .error e ↔
      ∃ before rest, cs = before ++ rest ∧ Reaches cs rest ∧ Stuck rest ∧
        e = ⟨offset + byteLength before, verdict rest⟩ := by
  have place (before rest : List Char) : offset + byteLength (before ++ rest) =
      offset + byteLength before + byteLength rest := by
    rw [byteLength_append, Nat.add_assoc]
  constructor
  · intro failed
    obtain ⟨rest, reached, ended⟩ := exists_reaches cs
    obtain ⟨before, rfl⟩ := reached.exists_append
    rw [reached.error_iff (place before rest)] at failed
    rcases ended with rfl | stuck
    · have read : scanFrom (offset + byteLength before) [] = .ok [] := by
        rw [scanFrom_eq, Gap.leading_of_piece?_none rfl]
        rfl
      rw [read] at failed
      contradiction
    · rw [scanFrom_of_stuck _ stuck] at failed
      cases failed
      exact ⟨before, rest, rfl, reached, stuck, rfl⟩
  · rintro ⟨before, rest, rfl, reached, stuck, rfl⟩
    rw [reached.error_iff (place before rest)]
    exact scanFrom_of_stuck _ stuck

theorem tokenize_eq_error_iff {script : String} {e : SyntaxError} :
    tokenize script = .error e ↔
      ∃ before rest, script.toList = before ++ rest ∧ Reaches script.toList rest ∧ Stuck rest ∧
        e = ⟨byteLength before, verdict rest⟩ := by
  have scanned : tokenize script = .error e ↔ scanFrom 0 script.toList = .error e := by
    unfold tokenize
    cases scanFrom 0 script.toList <;> simp
  rw [scanned, scanFrom_eq_error_iff]
  simp only [Nat.zero_add]

/-! ## The judgement -/

/-- A complaint that says what is wrong with a text at which reading is stuck. -/
structure Diagnoses (complaint : Complaint) (rest : List Char) : Prop where
  comment : complaint = .unterminatedComment ↔ Scan.OpenComment rest
  quote : complaint = .unterminatedQuote ↔ Scan.OpenQuote rest
  character : ¬ Scan.OpenComment rest → ¬ Scan.OpenQuote rest →
    ∃ c cs, rest = c :: cs ∧ complaint = .unexpectedCharacter c

/-- A letter for the radix and this quote stand at the head of a text. -/
def Announces (quote : Char) (cs : List Char) : Prop :=
  ∃ letter ∈ Scan.radixLetters, [letter, quote] <+: cs

theorem announces_cons {quote c : Char} {cs : List Char} :
    Announces quote (c :: cs) ↔ c ∈ Scan.radixLetters ∧ cs.head? = some quote := by
  simp only [Announces, List.cons_prefix_cons, List.head?_eq_some_iff]
  constructor
  · rintro ⟨letter, listed, rfl, more, rfl⟩
    exact ⟨listed, more, rfl⟩
  · rintro ⟨listed, more, rfl⟩
    exact ⟨c, listed, rfl, more, rfl⟩

theorem startsQuoted_cons {c : Char} {cs : List Char} :
    startsQuoted (c :: cs) = true ↔ c = Scan.backQuote ∨ c = '\'' ∨ c = '"' := by
  simp [startsQuoted, or_comm]

theorem complaintAt_cases {rest : List Char} (nonempty : rest ≠ []) :
    (startsQuoted rest = true ∨ Announces '\'' rest) ∧ complaintAt rest = .unterminatedQuote ∨
      ¬ (startsQuoted rest = true ∨ Announces '\'' rest) ∧
        ∃ c cs, rest = c :: cs ∧ complaintAt rest = .unexpectedCharacter c := by
  obtain ⟨c, cs, rfl⟩ := List.exists_cons_of_ne_nil nonempty
  have judged : (startsQuoted (c :: cs) ||
        (Scan.radixOf? c).isSome && cs.head? == some '\'') = true ↔
      startsQuoted (c :: cs) = true ∨ Announces '\'' (c :: cs) := by
    rw [announces_cons, ← Scan.isSome_radixOf?_iff]
    simp
  rw [← judged]
  cases begun : startsQuoted (c :: cs) || (Scan.radixOf? c).isSome && cs.head? == some '\'' with
  | true => exact .inl ⟨rfl, by simp [complaintAt, begun]⟩
  | false => exact .inr ⟨by simp, c, cs, rfl, by simp [complaintAt, begun]⟩

theorem openQuote_iff {rest : List Char} (tokenless : Scan.token? rest = none) :
    Scan.OpenQuote rest ↔
      (startsQuoted rest = true ∨ Announces '\'' rest) ∨ Announces '"' rest := by
  constructor
  · intro open_
    cases open_ with
    | name => exact .inl (.inl (startsQuoted_cons.mpr (.inl rfl)))
    | text kind => exact .inl (.inl (startsQuoted_cons.mpr (.inr kind)))
    | radix announces kind =>
        rcases kind with rfl | rfl
        · exact .inl (.inr (announces_cons.mpr ⟨announces, rfl⟩))
        · exact .inr (announces_cons.mpr ⟨announces, rfl⟩)
  · have announced {quote : Char} (kind : quote = '\'' ∨ quote = '"')
        (announces : Announces quote rest) : Scan.OpenQuote rest := by
      obtain ⟨letter, listed, cs, rfl⟩ := announces
      exact .radix listed kind ((Scan.token?_radix_eq_none_iff listed kind).mp tokenless)
    rintro ((begun | announces) | announces)
    · cases rest with
      | nil => contradiction
      | cons c cs =>
          rcases startsQuoted_cons.mp begun with rfl | kind
          · rw [Scan.token?_backQuote] at tokenless
            exact .name (Scan.backQuoted?_eq_none_iff.mp tokenless)
          · exact .text kind ((Scan.token?_quote_eq_none_iff kind).mp tokenless)
    · exact announced (.inl rfl) announces
    · exact announced (.inr rfl) announces

/-- Before a double quote behind a letter for the radix, no other quote stands. -/
theorem Announces.undetected {rest : List Char} (h : Announces '"' rest) :
    ¬ (startsQuoted rest = true ∨ Announces '\'' rest) := by
  obtain ⟨letter, listed, cs, rfl⟩ := h
  rintro (begun | single)
  · rcases startsQuoted_cons.mp begun with rfl | rfl | rfl <;> revert listed <;> decide
  · simpa using (announces_cons.mp single).2

theorem not_openQuote_of_startsComment {rest : List Char} (h : startsComment rest = true) :
    ¬ Scan.OpenQuote rest ∧ ¬ Announces '"' rest := by
  obtain ⟨cs, rfl⟩ : ∃ cs, rest = '/' :: cs := by
    cases rest with
    | nil => contradiction
    | cons c cs =>
        cases cs <;> simp_all [startsComment]
  constructor
  · intro open_
    cases open_ with
    | text kind => simp at kind
    | radix announces => revert announces; decide
  · rw [announces_cons]
    rintro ⟨listed, -⟩
    revert listed
    decide

/-- Only a double quote behind a letter for the radix is misjudged. -/
theorem Stuck.diagnoses_iff {rest : List Char} (h : Stuck rest) :
    Diagnoses (verdict rest) rest ↔ ¬ Announces '"' rest := by
  have comment := Scan.openComment_iff h.gapless
  cases commented : startsComment rest with
  | true =>
      obtain ⟨unquoted, unannounced⟩ := not_openQuote_of_startsComment commented
      have open_ := comment.mpr commented
      have said : verdict rest = .unterminatedComment := by simp [verdict, commented]
      rw [said]
      refine iff_of_true ⟨by simpa using open_, by simpa using unquoted, ?_⟩ unannounced
      exact fun closed => absurd open_ closed
  | false =>
      have closed : ¬ Scan.OpenComment rest := by simp [comment, commented]
      have quote := openQuote_iff (h.tokenless commented)
      have said : verdict rest = complaintAt rest := by simp [verdict, commented]
      rw [said]
      rcases complaintAt_cases h.nonempty with ⟨begun, judged⟩ | ⟨unbegun, c, cs, text, judged⟩
      · have unannounced : ¬ Announces '"' rest := fun double => double.undetected begun
        have open_ := quote.mpr (.inl begun)
        rw [judged]
        exact iff_of_true ⟨by simpa using closed, by simpa using open_,
          fun _ unquoted => absurd open_ unquoted⟩ unannounced
      · rw [judged]
        constructor
        · intro diagnosed double
          have wrong := diagnosed.quote.mpr (quote.mpr (.inr double))
          contradiction
        · intro unannounced
          have unquoted : ¬ Scan.OpenQuote rest := by
            rw [quote]
            exact fun open_ => open_.elim unbegun unannounced
          exact ⟨by simpa using closed, by simpa using unquoted, fun _ _ => ⟨c, cs, text, rfl⟩⟩

/-- Reading fails exactly if gaps and tokens, taken off from the start, lead to a rest where
    neither stands, and the complaint is about the place of this rest. It says that a comment
    does not end exactly if the rest begins with one that does not, that a quoted text does not
    end exactly if the rest begins with one that does not, and else that a character is
    unexpected: all this exactly if the rest does not begin with a letter for the radix and a
    double quote. -/
theorem complaint_exact_iff (script : String) :
    ((∃ e, tokenize script = .error e) ↔ ∃ rest, Reaches script.toList rest ∧ Stuck rest) ∧
    ∀ before rest, script.toList = before ++ rest → Reaches script.toList rest → Stuck rest →
      ∃ complaint, tokenize script = .error ⟨byteLength before, complaint⟩ ∧
        (Diagnoses complaint rest ↔ ¬ Announces '"' rest) := by
  constructor
  · constructor
    · rintro ⟨e, failed⟩
      obtain ⟨before, rest, -, reached, stuck, -⟩ := tokenize_eq_error_iff.mp failed
      exact ⟨rest, reached, stuck⟩
    · rintro ⟨rest, reached, stuck⟩
      obtain ⟨before, whole⟩ := reached.exists_append
      exact ⟨_, tokenize_eq_error_iff.mpr ⟨before, rest, whole, reached, stuck, rfl⟩⟩
  · intro before rest whole reached stuck
    have failed := tokenize_eq_error_iff.mpr ⟨before, rest, whole, reached, stuck, rfl⟩
    exact ⟨verdict rest, failed, stuck.diagnoses_iff⟩

/-- A quote behind a name and a blank, which is not closed. -/
theorem complaint_exact_iff_afterName :
    Reaches "a 'b".toList "'b".toList ∧ Stuck "'b".toList ∧ ¬ Announces '"' "'b".toList ∧
      ∃ complaint, tokenize "a 'b" = .error ⟨2, complaint⟩ ∧ Diagnoses complaint "'b".toList := by
  have name : Scan.token? "a 'b".toList =
      some ⟨.identifier "a", "a", ['a'], " 'b".toList⟩ := by decide +kernel
  have blank : Gap.piece? " 'b".toList = some ([' '], "'b".toList) := by decide
  have reached : Reaches "a 'b".toList "'b".toList :=
    .tail (.single (.token (by decide) (by decide) name)) (.gap blank)
  have stuck : Stuck "'b".toList := by decide
  have unannounced : ¬ Announces '"' ['\'', 'b'] := by
    rw [announces_cons]
    decide
  obtain ⟨complaint, failed, exact_⟩ :=
    (complaint_exact_iff "a 'b").2 "a ".toList "'b".toList (by decide) reached stuck
  exact ⟨reached, stuck, unannounced, complaint, failed, exact_.mpr unannounced⟩

/-- A bit literal whose double quote is not closed is refused for its letter, though with a
    single quote it is refused for the quote. -/
theorem complaint_wrong_doubleQuote :
    Stuck "b\"1".toList ∧ Scan.OpenQuote "b\"1".toList ∧
      tokenize "b\"1" = .error ⟨0, .unexpectedCharacter 'b'⟩ ∧
      tokenize "b'1" = .error ⟨0, .unterminatedQuote⟩ := by
  refine ⟨by decide, ?_, by decide +kernel, by decide +kernel⟩
  have tokenless : Scan.token? "b\"1".toList = none := by decide
  exact (openQuote_iff tokenless).mpr (.inr ⟨'b', by decide, ['1'], rfl⟩)

end Lexeme

end TableShift
