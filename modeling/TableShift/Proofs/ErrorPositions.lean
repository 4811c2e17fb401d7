import Mathlib.Data.List.Chain
import TableShift.Proofs.LexicalErrors
import TableShift.Proofs.Tiling

/-! # Where complaints point

A complaint about a script is about a character boundary of it. If the script has lexemes, the
complaint is about the start or the end of one of the lexemes of the first statement that cannot
be read. The readers work in slices of slices, but all they do with positions is to hand them on.
So a map that moves one position and no lexeme of the statement changes nothing, and the complaint
is not about that position.
-/

namespace TableShift

/-! ## Statements -/

namespace Script

/-- A complaint about a chunk is about the start or the end of one of its lexemes. -/
theorem exists_lexeme_of_statement {chunk : List Lexeme} {e : SyntaxError}
    (h : (Cursor.ofSlice chunk).statement = .error e) :
    ∃ l ∈ chunk, e.position = l.start ∨ e.position = l.stop := by
  by_contra elsewhere
  -- Moves the position of the complaint and no other.
  let f := fun n => if n = e.position then n + 1 else n
  have still : chunk.map (Lexeme.relocate f) = chunk := by
    refine (List.map_congr_left fun l member => ?_).trans (List.map_id chunk)
    have apart : l.start ≠ e.position ∧ l.stop ≠ e.position :=
      ⟨fun same => elsewhere ⟨l, member, .inl same.symm⟩,
        fun same => elsewhere ⟨l, member, .inr same.symm⟩⟩
    simp [Lexeme.relocate, f, apart]
  have moved := statement_relocate f chunk
  rw [still, h, relocateResult_error, Except.error.injEq] at moved
  have place := congrArg SyntaxError.position moved
  simp [SyntaxError.relocate, f] at place

/-- The first chunk that cannot be read is the one that is complained about. -/
theorem exists_chunk_of_error {chunks : List (List Lexeme)} {e : SyntaxError}
    (h : statements chunks = .error e) :
    ∃ before chunk after, chunks = before ++ chunk :: after ∧
      (∀ earlier ∈ before, ∃ found, (Cursor.ofSlice earlier).statement = .ok found) ∧
      (Cursor.ofSlice chunk).statement = .error e := by
  induction chunks with
  | nil => contradiction
  | cons chunk chunks ih =>
      cases first : (Cursor.ofSlice chunk).statement with
      | error d =>
          have same : d = e := by simpa [statements, first, bind, Except.bind] using h
          exact ⟨[], chunk, chunks, rfl, by simp, same ▸ first⟩
      | ok found =>
          have others : statements chunks = .error e := by
            cases later : statements chunks with
            | ok more => simp [statements, first, later, bind, Except.bind, pure, Except.pure] at h
            | error d => simpa [statements, first, later, bind, Except.bind] using h
          obtain ⟨before, failing, after, rfl, read, failed⟩ := ih others
          refine ⟨chunk :: before, failing, after, rfl, ?_, failed⟩
          intro earlier member
          rcases List.mem_cons.mp member with rfl | member
          · exact ⟨found, first⟩
          · exact read earlier member

/-- The first chunk begins a list of lexemes, the others stand inside it. -/
theorem prefix_infix_of_chunks {ls first : List Lexeme} {rest : List (List Lexeme)}
    (h : chunks ls = first :: rest) : first <+: ls ∧ ∀ chunk ∈ rest, chunk <:+: ls := by
  induction ls generalizing first rest with
  | nil =>
      cases h
      simp
  | cons l ls ih =>
      obtain ⟨next, later, split⟩ := List.exists_cons_of_ne_nil (chunks_ne_nil ls)
      obtain ⟨begins, inside⟩ := ih split
      rw [chunks, split] at h
      split at h
      · cases h
        refine ⟨List.nil_prefix, ?_⟩
        rw [List.forall_mem_cons]
        exact ⟨List.infix_cons begins.isInfix,
          fun chunk member => List.infix_cons (inside chunk member)⟩
      · cases h
        exact ⟨List.cons_prefix_cons.mpr ⟨rfl, begins⟩,
          fun chunk member => List.infix_cons (inside chunk member)⟩

theorem infix_of_mem_chunks {ls chunk : List Lexeme} (h : chunk ∈ chunks ls) : chunk <:+: ls := by
  obtain ⟨first, rest, split⟩ := List.exists_cons_of_ne_nil (chunks_ne_nil ls)
  obtain ⟨begins, inside⟩ := prefix_infix_of_chunks split
  rw [split] at h
  rcases List.mem_cons.mp h with rfl | later
  · exact begins.isInfix
  · exact inside chunk later

end Script

/-! ## Places -/

namespace Lexeme

theorem tiles_of_tokenize {script : String} {lexemes : List Lexeme}
    (h : tokenize script = .ok lexemes) : Tiles Shows 0 script.toList lexemes := by
  unfold tokenize at h
  split at h
  next read =>
    cases h
    exact tiles_mergeCompounds (tiles_of_scanFrom read)
  next => contradiction

/-- A character boundary of a script. -/
def IsBoundary (script : String) (position : Nat) : Prop :=
  position ≤ script.utf8ByteSize ∧ String.Pos.Raw.IsValid script ⟨position⟩

theorem isBoundary_of_append {script : String} {before after : List Char}
    (h : script.toList = before ++ after) : IsBoundary script (byteLength before) := by
  refine ⟨?_, isValid_of_append h⟩
  rw [utf8ByteSize_eq_byteLength, h, byteLength_append]
  omega

theorem Tiles.isBoundary {script : String} {lexemes : List Lexeme}
    (h : Tiles Shows 0 script.toList lexemes) {l : Lexeme} (member : l ∈ lexemes) :
    IsBoundary script l.start ∧ IsBoundary script l.stop := by
  obtain ⟨before, slice, after, whole, start, stop, -⟩ := h.exists_slice member
  rw [Nat.zero_add] at start stop
  constructor
  · rw [start]
    exact isBoundary_of_append whole
  · rw [stop, ← byteLength_append]
    exact isBoundary_of_append (by rw [whole, List.append_assoc])

theorem Tiles.start_le_stop {offset : Nat} {cs : List Char} {lexemes : List Lexeme}
    (h : Tiles Shows offset cs lexemes) {l : Lexeme} (member : l ∈ lexemes) : l.start ≤ l.stop := by
  obtain ⟨before, slice, after, -, start, stop, -⟩ := h.exists_slice member
  omega

theorem le_of_isChain {ls : List Lexeme} (order : ls.IsChain fun l next => l.stop ≤ next.start)
    (wide : ∀ l ∈ ls, l.start ≤ l.stop) {first last l : Lexeme} (head : ls.head? = some first)
    (end_ : ls.getLast? = some last) (member : l ∈ ls) :
    first.start ≤ l.start ∧ l.stop ≤ last.stop := by
  induction ls generalizing first l with
  | nil => contradiction
  | cons m ls ih =>
      obtain rfl : m = first := by simpa using head
      have widths := List.forall_mem_cons.mp wide
      cases ls with
      | nil =>
          obtain rfl : m = last := by simpa using end_
          obtain rfl : l = m := by simpa using member
          exact ⟨le_rfl, le_rfl⟩
      | cons next ls =>
          rw [List.isChain_cons_cons] at order
          rw [List.getLast?_cons_cons] at end_
          have front := ih order.2 widths.2 rfl end_ List.mem_cons_self
          have nextWide := widths.2 next List.mem_cons_self
          rcases List.mem_cons.mp member with rfl | later
          · omega
          · have behind := ih order.2 widths.2 rfl end_ later
            omega

end Lexeme

namespace Script

open Lexeme

/-- A complaint about a script is about a character boundary of it. If the script has lexemes,
    it is about the start or the end of a lexeme of the first chunk between semicolons that
    cannot be read, and so about a place between the start of this chunk and its end. -/
theorem parse_error_located {script : String} {e : SyntaxError} (h : parse script = .error e) :
    (e.position ≤ script.utf8ByteSize ∧ String.Pos.Raw.IsValid script ⟨e.position⟩) ∧
    ∀ lexemes, tokenize script = .ok lexemes →
      ∃ before chunk after, chunks lexemes = before ++ chunk :: after ∧
        (∀ earlier ∈ before, ∃ found, (Cursor.ofSlice earlier).statement = .ok found) ∧
        (Cursor.ofSlice chunk).statement = .error e ∧
        (∃ l ∈ chunk, e.position = l.start ∨ e.position = l.stop) ∧
        ∃ first last, chunk.head? = some first ∧ chunk.getLast? = some last ∧
          first.start ≤ e.position ∧ e.position ≤ last.stop := by
  cases tokenized : tokenize script with
  | error d =>
      obtain rfl : d = e := by simpa [parse, tokenized] using h
      obtain ⟨before, rest, whole, -, -, rfl⟩ := tokenize_eq_error_iff.mp tokenized
      exact ⟨isBoundary_of_append whole, by simp⟩
  | ok lexemes =>
      have failed : statements (chunks lexemes) = .error e := by
        simpa [parse, tokenized] using h
      have tiles := tiles_of_tokenize tokenized
      obtain ⟨before, chunk, after, split, read, complained⟩ := exists_chunk_of_error failed
      obtain ⟨l, member, place⟩ := exists_lexeme_of_statement complained
      have inside : chunk <:+: lexemes := infix_of_mem_chunks (by simp [split])
      refine ⟨?_, ?_⟩
      · obtain ⟨start, stop⟩ := tiles.isBoundary (inside.mem member)
        rcases place with here | here
        · exact here ▸ start
        · exact here ▸ stop
      · rintro _ ⟨rfl⟩
        refine ⟨before, chunk, after, split, read, complained, ⟨l, member, place⟩, ?_⟩
        have nonempty := List.ne_nil_of_mem member
        refine ⟨_, _, List.head?_eq_some_head nonempty, List.getLast?_eq_some_getLast nonempty, ?_⟩
        have wide : ∀ m ∈ chunk, m.start ≤ m.stop := by
          intro m listed
          exact tiles.start_le_stop (inside.mem listed)
        have chained := List.IsChain.infix tiles.isChain inside
        have bounds := le_of_isChain chained wide
          (List.head?_eq_some_head nonempty) (List.getLast?_eq_some_getLast nonempty) member
        have width := wide l member
        omega

/-- A key without columns in the second of three statements, behind a character of two bytes.
    The complaint is about the end of the key, inside the body of the table. -/
theorem parse_error_located_key :
    let script := "é;CREATE TABLE t (a INT, KEY ()) x; DROP TABLE"
    parse script = .error ⟨32, .noKeyColumns .index⟩ ∧ String.Pos.Raw.IsValid script ⟨32⟩ ∧
      ∃ lexemes, tokenize script = .ok lexemes ∧
        ∃ chunk ∈ chunks lexemes, ∃ first last, chunk.head? = some first ∧
          chunk.getLast? = some last ∧ first.start ≤ 32 ∧ 32 ≤ last.stop := by
  intro script
  have failed : parse script = .error ⟨32, .noKeyColumns .index⟩ := by decide +kernel
  have read : (tokenize script).isOk = true := by decide +kernel
  obtain ⟨⟨-, valid⟩, inside⟩ := parse_error_located failed
  cases tokenized : tokenize script with
  | error e => simp [tokenized, Except.isOk, Except.toBool] at read
  | ok lexemes =>
      obtain ⟨before, chunk, after, split, -, -, -, bounds⟩ := inside lexemes tokenized
      exact ⟨failed, valid, lexemes, rfl, chunk, by simp [split], bounds⟩

end Script

end TableShift
