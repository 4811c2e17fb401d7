import Mathlib.Data.List.Forall2
import TableShift.Migration.Batch
import TableShift.Proofs.TableNames

/-! # Keys that a clause drops

A clause `DROP` with a key's keyword names a key or a constraint, no column. The keywords
`INDEX`, `KEY` and `FOREIGN KEY` are understood, and `PRIMARY KEY` leaves the clause without
a name, so that it is left out. Every other keyword is read as the name of a column.
-/

namespace TableShift

open Lexeme

/-! ## The clauses of a statement -/

/-- The clauses of a statement that alters the table, as they stand among the lexemes of a
    script. -/
inductive Script.ClausesOf (lexemes : List Lexeme) (table : String) : List (List Lexeme) → Prop where
  | intro {head named rest : List Lexeme} (opens : Opens "ALTER" "IGNORE" head)
      (denoted : Denotes table named) (ended : Cursor.atPunct ⟨rest, 0⟩ '.' = false)
      (listed : head ++ (named ++ rest) ∈ chunks lexemes) :
      ClausesOf lexemes table (commaParts rest)

namespace Cursor

theorem exists_head_of_atKeyword {c : Cursor} {word : String} (h : c.atKeyword word = true) :
    ∃ l rest, c.rest = l :: rest ∧ l.token = .keyword word := by
  cases rest : c.rest with
  | nil => simp [atKeyword, rest] at h
  | cons l ls => exact ⟨l, ls, rfl, Token.isKeyword_iff.mp (by simpa [atKeyword, rest] using h)⟩

theorem opens_of_skipKeyword {verb word : String} {v : Lexeme} {c : Cursor}
    (first : v.token = .keyword verb) (h : (c.skipKeyword word).atKeyword "TABLE" = true) :
    ∃ words rest, Opens verb word (v :: words) ∧ c.rest = words ++ rest ∧
      (c.skipKeyword word).next = ⟨rest, c.stop⟩ := by
  obtain ⟨table, rest, left, last⟩ := exists_head_of_atKeyword h
  by_cases present : c.atKeyword word = true
  · obtain ⟨w, after, here, second⟩ := exists_head_of_atKeyword present
    obtain rfl : after = table :: rest := by
      simpa [skipKeyword, present, next, here] using left
    exact ⟨[w, table], rest, .worded first second last, here,
      by simp [skipKeyword, present, next, here]⟩
  · have absent : c.skipKeyword word = c := by simp [skipKeyword, present]
    rw [absent] at left ⊢
    exact ⟨[table], rest, .bare first last, left, by simp [next, left]⟩

theorem exists_opens_of_statement {c : Cursor} {statement : AlterTable}
    (h : c.statement = .ok (some (.alter statement))) :
    ∃ head rest, Opens "ALTER" "IGNORE" head ∧ c.rest = head ++ rest ∧
      alterTable ⟨rest, c.stop⟩ = .ok statement := by
  have other {α : Type} (read : Except SyntaxError α) (f : α → Statement)
      (kind : ∀ a, f a ≠ .alter statement) :
      (read.map fun a => some (f a)) ≠ .ok (some (.alter statement)) := by
    cases read with
    | error e => simp [Except.map]
    | ok a => simpa [Except.map] using kind a
  simp only [Cursor.statement] at h
  split at h
  · split at h
    · exact absurd h (other _ _ (by simp))
    · simp at h
  · split at h
    · rename_i altered
      split at h
      · rename_i table
        obtain ⟨verb, rest, split, first⟩ := exists_head_of_atKeyword altered
        have next : c.next = ⟨rest, c.stop⟩ := by simp [Cursor.next, split]
        obtain ⟨words, body, opens, remaining, after⟩ := opens_of_skipKeyword first table
        simp only [next] at remaining
        rw [after] at h
        refine ⟨verb :: words, body, opens, by simp [split, remaining], ?_⟩
        rw [next] at h
        cases read : alterTable ⟨body, c.stop⟩ with
        | error e => simp [read, Except.map] at h
        | ok found => simpa [read, Except.map] using h
      · simp at h
    · split at h
      · split at h
        · exact absurd h (other _ _ (by simp))
        · simp at h
      · simp at h

theorem forall₂_alterClause_of_alterClauses {parts : List (List Lexeme)}
    {operations : List AlterOperation} (h : alterClauses parts = .ok operations) :
    List.Forall₂ (fun part operation => (ofSlice part).alterClause = .ok operation)
      parts operations := by
  induction parts generalizing operations with
  | nil =>
      cases h
      exact .nil
  | cons part parts ih =>
      cases first : (ofSlice part).alterClause with
      | error e => simp [alterClauses, first, bind, Except.bind] at h
      | ok operation =>
          cases others : alterClauses parts with
          | error e => simp [alterClauses, first, others, bind, Except.bind] at h
          | ok later =>
              simp only [alterClauses, first, others, bind, Except.bind, pure, Except.pure,
                Except.ok.injEq] at h
              subst h
              exact .cons first (ih others)

theorem exists_clauses_of_alterTable {rest : List Lexeme} {stop : Nat} {statement : AlterTable}
    (h : alterTable ⟨rest, stop⟩ = .ok statement) :
    ∃ named clauses, Denotes statement.table named ∧ rest = named ++ clauses ∧
      atPunct ⟨clauses, 0⟩ '.' = false ∧
      List.Forall₂ (fun part operation => (ofSlice part).alterClause = .ok operation)
        (commaParts clauses) statement.operations := by
  cases name : Cursor.name ⟨rest, stop⟩ with
  | error e => simp [alterTable, name, bind, Except.bind] at h
  | ok found =>
      obtain ⟨table, after⟩ := found
      obtain ⟨named, denoted, split, ended⟩ := exists_denotes_of_name name
      cases read : alterClauses (commaParts after.rest) with
      | error e => simp [alterTable, name, read, bind, Except.bind] at h
      | ok operations =>
          simp only [alterTable, name, read, bind, Except.bind] at h
          split at h
          · simp [complain] at h
          · cases h
            exact ⟨named, after.rest, denoted, split, ended,
              forall₂_alterClause_of_alterClauses read⟩

end Cursor

namespace Script

theorem exists_chunk_of_mem {chunks : List (List Lexeme)} {found : List Statement}
    (h : statements chunks = .ok found) {statement : Statement} (member : statement ∈ found) :
    ∃ chunk ∈ chunks, (Cursor.ofSlice chunk).statement = .ok (some statement) := by
  induction chunks generalizing found with
  | nil =>
      cases h
      simp at member
  | cons chunk chunks ih =>
      cases first : (Cursor.ofSlice chunk).statement with
      | error e => simp [statements, first, bind, Except.bind] at h
      | ok here =>
          cases others : statements chunks with
          | error e => simp [statements, first, others, bind, Except.bind] at h
          | ok later =>
              simp only [statements, first, others, bind, Except.bind, pure, Except.pure,
                Except.ok.injEq] at h
              subst h
              rcases List.mem_append.mp member with here' | later'
              · obtain rfl : here = some statement := by simpa using here'
                exact ⟨chunk, List.mem_cons_self, first⟩
              · obtain ⟨other, listed, read⟩ := ih others later'
                exact ⟨other, List.mem_cons_of_mem _ listed, read⟩

/-- Every statement of a script that alters a table is read clause by clause. -/
theorem exists_clausesOf {script : String} {found : List Statement}
    (parsed : parse script = .ok found) {statement : AlterTable}
    (member : .alter statement ∈ found) :
    ∃ lexemes clauses, tokenize script = .ok lexemes ∧
      ClausesOf lexemes statement.table clauses ∧
      List.Forall₂ (fun clause operation => (Cursor.ofSlice clause).alterClause = .ok operation)
        clauses statement.operations := by
  unfold parse at parsed
  split at parsed
  · rename_i lexemes tokenized
    obtain ⟨chunk, listed, read⟩ := exists_chunk_of_mem parsed member
    obtain ⟨head, rest, opens, split, altered⟩ := Cursor.exists_opens_of_statement read
    obtain ⟨named, clauses, denoted, rfl, ended, operations⟩ :=
      Cursor.exists_clauses_of_alterTable altered
    have whole : chunk = head ++ (named ++ clauses) := split
    exact ⟨lexemes, _, tokenized, .intro opens denoted ended (whole ▸ listed), operations⟩
  · simp at parsed

end Script

/-! ## What a clause drops -/

/-- A clause that drops a key or a constraint by a keyword, those for an index and a foreign
    key aside. -/
inductive Lexeme.DropsKey (word : String) : List Lexeme → Prop where
  | intro {drop key : Lexeme} (verb : drop.token = .keyword "DROP")
      (spelled : key.token = .keyword word) (listed : word ∈ keyClauseWords)
      (other : word ∉ ["INDEX", "KEY", "FOREIGN KEY"]) (rest : List Lexeme) :
      DropsKey word (drop :: key :: rest)

namespace AlterOperation

/-- Whether a clause drops a column of the table that has this name before it. -/
def DropsColumn (operation : AlterOperation) (table : String) : Prop :=
  ∃ effect target, operation.effect? table = some effect ∧
    TableCommand.drop .dropColumn target ∈ effect.up

theorem effect?_drop (name table : String) :
    effect? ⟨["DROP"], some name, []⟩ table =
      some ⟨[.drop .dropColumn (.name name)], .remark "DROP COLUMN" name, table⟩ := by
  rfl

theorem effect?_dropPrimary (tokens : List Token) (table : String) :
    effect? ⟨["DROP"], none, .keyword "PRIMARY KEY" :: tokens⟩ table = none := by
  rfl

end AlterOperation

namespace Cursor

/-- A key's keyword after `DROP` is read as a name, the words for an index, a primary key and a
    foreign key aside. -/
theorem dropClause_key {key : Lexeme} {word : String} {rest : List Lexeme} {stop : Nat}
    {operation : AlterOperation} (spelled : key.token = .keyword word)
    (listed : word ∈ keyClauseWords) (other : word ∉ ["INDEX", "KEY", "FOREIGN KEY"])
    (h : dropClause ⟨key :: rest, stop⟩ = .ok operation) :
    if word = "PRIMARY KEY" then
      operation = ⟨["DROP"], none, .keyword word :: namedRemainder rest⟩
    else ∃ name after, Cursor.name ⟨key :: rest, stop⟩ = .ok (name, after) ∧
      operation = ⟨["DROP"], some name, []⟩ := by
  have uncolumned : ∀ word ∈ keyClauseWords, word ≠ "COLUMN" := by decide
  have unlisted : ¬ (word = "COLUMN" ∨ word = "INDEX" ∨ word = "KEY") := by
    have := uncolumned word listed
    simp_all
  have keyword : keyword? ⟨key :: rest, stop⟩ = some word := by
    simp [keyword?, spelled, Token.keyword?]
  simp only [dropClause, keyword, if_neg unlisted] at h
  split at h
  · rename_i kept
    have primary : word = "PRIMARY KEY" := by simp_all
    rw [if_pos primary]
    cases h
    rfl
  · rename_i dropped
    have unprimary : word ≠ "PRIMARY KEY" := fun primary => dropped (.inr primary)
    rw [if_neg unprimary]
    cases read : Cursor.name ⟨key :: rest, stop⟩ with
    | error e => simp [read, bind, Except.bind] at h
    | ok found =>
        simp only [read, bind, Except.bind, pure, Except.pure, Except.ok.injEq] at h
        exact ⟨found.1, found.2, rfl, h.symm⟩

end Cursor

namespace Script

/-- In every statement that alters a table, each clause is read as its own operation. One that
    drops a key or a constraint drops no column exactly if its keyword is that of the primary
    key. Any other keyword besides those for an index and a foreign key is taken for the name of
    a column. -/
theorem drop_key_keepsColumns_iff {script : String} {found : List Statement}
    (parsed : parse script = .ok found) {statement : AlterTable}
    (member : .alter statement ∈ found) :
    ∃ lexemes clauses, tokenize script = .ok lexemes ∧
      ClausesOf lexemes statement.table clauses ∧
      List.Forall₂ (fun clause operation => (Cursor.ofSlice clause).alterClause = .ok operation ∧
        ∀ word, DropsKey word clause →
          ∀ table, ¬ operation.DropsColumn table ↔ word = "PRIMARY KEY")
        clauses statement.operations := by
  obtain ⟨lexemes, clauses, tokenized, placed, operations⟩ := exists_clausesOf parsed member
  refine ⟨lexemes, clauses, tokenized, placed, operations.imp ?_⟩
  intro clause operation read
  refine ⟨read, fun word drops table => ?_⟩
  cases drops with
  | @intro drop key verb spelled listed other rest =>
      have dropped : Cursor.dropClause ⟨key :: rest, (Cursor.ofSlice (drop :: key :: rest)).stop⟩ =
          .ok operation := by
        simpa [Cursor.alterClause, Cursor.ofSlice, verb, Token.keyword?, Cursor.next] using read
      have taken := Cursor.dropClause_key spelled listed other dropped
      split at taken
      · rename_i primary
        subst primary taken
        simp [AlterOperation.DropsColumn, AlterOperation.effect?_dropPrimary]
      · rename_i unprimary
        obtain ⟨name, _, _, rfl⟩ := taken
        simp [AlterOperation.DropsColumn, AlterOperation.effect?_drop, unprimary]

/-- A primary key and a check are dropped, and a column by its name. -/
def primaryAndCheck : AlterTable where
  table := "t"
  operations :=
    [⟨["DROP"], none, [.keyword "PRIMARY KEY"]⟩, ⟨["DROP"], some "CHECK", []⟩,
      ⟨["DROP"], some "age", []⟩]

theorem drop_key_keepsColumns_primaryAndCheck :
    parse "ALTER TABLE s.t DROP PRIMARY KEY, DROP CHECK positive, DROP age" =
      .ok [.alter primaryAndCheck] ∧
    ∃ lexemes clauses,
      tokenize "ALTER TABLE s.t DROP PRIMARY KEY, DROP CHECK positive, DROP age" = .ok lexemes ∧
      ClausesOf lexemes primaryAndCheck.table clauses ∧
      List.Forall₂ (fun clause operation => (Cursor.ofSlice clause).alterClause = .ok operation ∧
        ∀ word, DropsKey word clause →
          ∀ table, ¬ operation.DropsColumn table ↔ word = "PRIMARY KEY")
        clauses primaryAndCheck.operations := by
  have parsed : parse "ALTER TABLE s.t DROP PRIMARY KEY, DROP CHECK positive, DROP age" =
      .ok [.alter primaryAndCheck] := by decide +kernel
  exact ⟨parsed, drop_key_keepsColumns_iff parsed (List.mem_singleton_self _)⟩

/-- A constraint that is dropped by its name takes a column with it. -/
theorem drop_constraint_dropsColumn :
    parse "ALTER TABLE t DROP CONSTRAINT fk" =
      .ok [.alter ⟨"t", [⟨["DROP"], some "CONSTRAINT", []⟩]⟩] ∧
    (Migration.each [.alter ⟨"t", [⟨["DROP"], some "CONSTRAINT", []⟩]⟩] 0).map Migration.up =
      ["Schema::table('t', function (Blueprint $table) \x7b\n" ++
        "\t$table->dropColumn('CONSTRAINT');\n\x7d);"] := by
  refine ⟨?_, ?_⟩
  · decide +kernel
  · decide +kernel

end Script

end TableShift
