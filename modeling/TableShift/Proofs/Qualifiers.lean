import TableShift.Proofs.ClauseTexts

/-! # Qualifiers in front of tables

A qualifier in front of the name of a table is passed over where the reader of names meets
the name. In a clause of an alteration the schema is taken for the table: a new name and the
target of a foreign key change, unless the schema is called like the table. Which migrations
stay the same is said exactly, place by place.
-/

namespace TableShift

open Lexeme

/-! ## Places -/

/-- How the name of a table is read. -/
inductive Naming where
  /-- By the reader of names. -/
  | read
  /-- As the new name of the table that a clause renames. -/
  | renamed
  /-- In columns between parentheses, which are left out. -/
  | listed
  /-- As the target of a foreign key that a clause adds; `back` is what follows the name. -/
  | foreignKey (h : ForeignKeyHead) (back : List Lexeme)
  /-- In the definition of a column that a clause adds; `back` is what follows the name. -/
  | column (h : ColumnHead) (back : List Lexeme)

/-- A place in a clause where a table is named: what stands before the name and behind it. -/
inductive Lexeme.ClauseNames : List Lexeme → List Lexeme → Naming → Prop where
  | renamed {front : List Lexeme} (h : RenameHead front) (back : List Lexeme) :
      ClauseNames front back .renamed
  | listed {add opening reference : Lexeme} (verb : add.token = .keyword "ADD")
      (bracket : opening.token = .punct '(') (inside : List Lexeme)
      (spelled : reference.token = .keyword "REFERENCES") (back : List Lexeme) :
      ClauseNames (add :: opening :: (inside ++ [reference])) back .listed
  | foreignKey {add : Lexeme} (verb : add.token = .keyword "ADD") (h : ForeignKeyHead)
      (back : List Lexeme) : ClauseNames (add :: h.lexemes) back (.foreignKey h back)
  | column {h : ColumnHead} {front : List Lexeme} (added : h.Added front) (back : List Lexeme) :
      ClauseNames front back (.column h back)

/-- A place in a statement where a table is named: what stands before the name and behind
    it. -/
inductive Lexeme.Names (table : Lexeme) : List Lexeme → List Lexeme → Naming → Prop where
  | read {before rest : List Lexeme} (h : ReaderMeets before (table :: rest)) :
      Names table before rest .read
  /-- In a clause of an alteration. -/
  | clause {altered : String} {head name clauses front rest back : List Lexeme} {naming : Naming}
      (opens : Opens "ALTER" "IGNORE" head) (named : Denotes altered name)
      (ended : Cursor.atPunct ⟨clauses, 0⟩ '.' = false)
      (last : (splitCommas 0 clauses).getLast? = some front)
      (first : (splitCommas (clauses.foldl depthAfter 0) (table :: rest)).head? =
        some (table :: back))
      (h : ClauseNames front back naming) : Names table (head ++ (name ++ clauses)) rest naming

/-- A place in a script where a table is named. -/
structure Script.Names (table : Lexeme) (before rest : List Lexeme) (naming : Naming) : Prop where
  named : table.name?.isSome = true
  place : ∃ front back, (chunks before).getLast? = some front ∧
    (chunks (table :: rest)).head? = some (table :: back) ∧ Lexeme.Names table front back naming

/-! ## Clauses -/

namespace Naming

/-- Whether the code stays the same when a schema is put in front of a table. -/
def Keeps (schema : String) (table : Lexeme) (indent : Nat) : Naming → Prop
  | read => True
  | renamed => table.name? = some schema
  | listed => True
  | foreignKey h back =>
    h.columnTexts = [] ∨
      ((h.shadowed = true ∨ table.name? = some schema) ∧
        (back.head?.bind fun l => ReferenceOption.of? table.token l.token) = none)
  | column h back =>
    let behind := clauseTokens 0 table.introducesName back
    ((ColumnClause.scan h.tokens).scanFrom (table.token :: behind)).code indent h.column =
      ((ColumnClause.scan h.tokens).scanFrom behind).code indent h.column

/-- A column stays the same unless the table is spelled with a keyword. -/
theorem keeps_column {table : Lexeme} (plain : table.token.keyword? = none) (h : ColumnHead)
    (back : List Lexeme) (schema : String) (indent : Nat) :
    (column h back).Keeps schema table indent := by
  simp only [Keeps, ColumnClause.scanFrom_cons _ plain]

end Naming

/-- A condition tells whether two clauses have the same code, and clauses with the same code
    are taken back in the same way. -/
def AlterOperation.AgreeIf (x y : AlterOperation) (condition : Nat → Prop) : Prop :=
  ∀ indent table, (x.code indent table = y.code indent table ↔ condition indent) ∧
    (x.code indent table = y.code indent table →
      (x.effect? table).map ClauseEffect.back = (y.effect? table).map ClauseEffect.back)

namespace Lexeme

theorem exists_withoutLengths_cons (l : Lexeme) (ls : List Lexeme) :
    ∃ others, withoutLengths 0 (l :: ls) = l :: others := by
  rcases l.opens_or_closes_or_flat with opens | closes | flat
  · exact ⟨_, withoutLengths_open opens ls⟩
  · exact ⟨withoutLengths 0 ls, by simp [withoutLengths, closes, Token.isPunct]⟩
  · exact ⟨_, withoutLengths_flat flat (Nat.zero_le 1) ls⟩

theorem event_of_introducesName {l : Lexeme} (h : l.introducesName = true) :
    l.token.keyword?.bind ReferenceEvent.ofKeyword? = none := by
  cases token : l.token with
  | keyword word =>
      rw [introducesName_keyword token] at h
      cases found : ReferenceEvent.ofKeyword? word with
      | none => exact found
      | some event =>
          rw [ReferenceEvent.plain_of_ofKeyword? found] at h
          cases h
  | identifier | literal | punct => rfl

/-- The name of a table is an event only to the next word. -/
theorem referenceOptions_cons_clauseTokens (table : Lexeme) (back : List Lexeme) :
    referenceOptions (table.token :: clauseTokens 0 table.introducesName (withoutLengths 0 back)) =
      (back.head?.bind fun l => ReferenceOption.of? table.token l.token).toList ++
        referenceOptions (clauseTokens 0 table.introducesName (withoutLengths 0 back)) := by
  cases back with
  | nil => rfl
  | cons l ls =>
      obtain ⟨others, kept⟩ := exists_withoutLengths_cons l ls
      have action : ReferenceOption.of? table.token
          (if table.introducesName then l.asIdentifier else l.token) =
            ReferenceOption.of? table.token l.token := by
        cases introduces : table.introducesName with
        | false => rfl
        | true => simp [ReferenceOption.of?, event_of_introducesName introduces]
      simp only [kept, clauseTokens, Nat.lt_irrefl, decide_false, Bool.false_or,
        referenceOptions_cons_cons, action, List.head?_cons, Option.bind_some]

end Lexeme

namespace Qualifier

variable (q : Qualifier) {table : Lexeme} {name : String}

theorem clauseTokens_append (named : table.name? = some name) (rest : List Lexeme) :
    clauseTokens 0 true (q.lexemes ++ table :: rest) =
      .identifier q.schema :: .punct '.' :: table.token ::
        clauseTokens 0 table.introducesName rest := by
  have head : q.head.introducesName = false := by
    simp [introducesName, nameIntroducers, q.spelled, Token.isKeyword]
  have schema : q.head.asIdentifier = .identifier q.schema := by
    simp [asIdentifier, q.name?_head]
  simp only [lexemes, List.cons_append, List.nil_append]
  rw [clauseTokens_flat q.flat_head, clauseTokens_flat q.flat_dot, head,
    introducesName_punct q.dotted, clauseTokens_flat (flat_of_name? named), q.dotted, schema]
  rfl

theorem exists_operations_renamed {front : List Lexeme} (h : RenameHead front)
    (named : table.name? = some name) (back : List Lexeme) (stop : Nat) :
    ∃ x y, Cursor.alterClause ⟨front ++ table :: back, stop⟩ = .ok x ∧
      Cursor.alterClause ⟨front ++ (q.lexemes ++ table :: back), stop⟩ = .ok y ∧
      y.AgreeIf x fun _ => table.name? = some q.schema := by
  obtain ⟨x, bare, hx⟩ := h.exists_operation named back stop
  obtain ⟨y, qualified, hy⟩ := h.exists_operation q.name?_head (q.dot :: table :: back) stop
  refine ⟨x, y, bare, qualified, fun indent altered => ?_⟩
  rw [AlterOperation.code_rename_eq_iff (hy altered) (hx altered), named, hx, hy,
    Option.some.injEq]
  refine ⟨eq_comm, ?_⟩
  rintro rfl
  rfl

theorem exists_operations_listed {add opening : Lexeme} (verb : add.token = .keyword "ADD")
    (bracket : opening.token = .punct '(') (inside rest : List Lexeme) (stop : Nat) :
    ∃ x y, Cursor.alterClause ⟨add :: opening :: (inside ++ rest), stop⟩ = .ok x ∧
      Cursor.alterClause ⟨add :: opening :: (inside ++ (q.lexemes ++ rest)), stop⟩ = .ok y ∧
      y.AgreeIf x fun _ => True := by
  have read (ls : List Lexeme) : ∃ x, Cursor.alterClause ⟨add :: opening :: ls, stop⟩ = .ok x ∧
      ∀ table, x.effect? table = none := by
    refine ⟨⟨["ADD"], none, remainder (opening :: ls)⟩, ?_, ?_⟩
    · simp [Cursor.alterClause, verb, Token.keyword?, Cursor.next, Cursor.addClause,
        Cursor.keyword?, bracket, Cursor.atPunct, Token.isPunct]
    · intro table
      have classified (tokens : List Token) : AlterKind.classify? ["ADD"] (.punct '(' :: tokens) =
          some (.addColumn, .punct '(' :: tokens) := rfl
      simp only [AlterOperation.effect?, remainder, clauseTokens, bracket]
      simp [classified, AlterOperation.columnEffect?]
  obtain ⟨x, bare, hx⟩ := read (inside ++ rest)
  obtain ⟨y, qualified, hy⟩ := read (inside ++ (q.lexemes ++ rest))
  refine ⟨x, y, bare, qualified, fun indent altered => ?_⟩
  simp [AlterOperation.code, AlterOperation.lines, hx, hy]

theorem exists_operations_foreignKey {add : Lexeme} (verb : add.token = .keyword "ADD")
    (h : ForeignKeyHead) (named : table.name? = some name) (back : List Lexeme) (stop : Nat) :
    ∃ x y, Cursor.alterClause ⟨add :: h.lexemes ++ table :: back, stop⟩ = .ok x ∧
      Cursor.alterClause ⟨add :: h.lexemes ++ (q.lexemes ++ table :: back), stop⟩ = .ok y ∧
      y.AgreeIf x fun indent => (Naming.foreignKey h back).Keeps q.schema table indent := by
  obtain ⟨options, classified, read⟩ := h.exists_operation verb stop
  obtain ⟨found, shadowed, targets⟩ := h.exists_target
  have flat := flat_of_name? named
  have identifier : table.asIdentifier = .identifier name := by simp [asIdentifier, named]
  have stripped : withoutLengths 0 (q.lexemes ++ table :: back) =
      q.lexemes ++ table :: withoutLengths 0 back := by
    rw [withoutLengths_of_flat, withoutLengths_flat flat (Nat.zero_le 1)]
    simp [lexemes, q.flat_head, q.flat_dot]
  refine ⟨_, _, read _, read _, fun indent altered => ?_⟩
  rw [stripped, q.clauseTokens_append named, withoutLengths_flat flat (Nat.zero_le 1),
    clauseTokens_flat flat, if_pos rfl, identifier]
  obtain ⟨columns, actions, bare, qualified⟩ := targets name q.schema table.token
    (clauseTokens 0 table.introducesName (withoutLengths 0 back)) flat.1
  have hx := h.effect?_append classified (.identifier name ::
    clauseTokens 0 table.introducesName (withoutLengths 0 back)) altered
  have hy := h.effect?_append classified (.identifier q.schema :: .punct '.' :: table.token ::
    clauseTokens 0 table.introducesName (withoutLengths 0 back)) altered
  rw [bare] at hx
  rw [qualified] at hy
  by_cases bodiless : h.columnTexts = []
  · rw [if_pos (by simp [bodiless])] at hx hy
    simp [AlterOperation.code, AlterOperation.lines, hx, hy, Naming.Keeps, bodiless]
  · rw [if_neg (by simp [bodiless])] at hx hy
    have target : found.getD q.schema = found.getD name ↔
        h.shadowed = true ∨ table.name? = some q.schema := by
      rw [← shadowed, named]
      cases found with
      | none => simp [eq_comm]
      | some other => simp
    rw [AlterOperation.code_foreign_eq_iff hy hx, referenceOptions_cons_clauseTokens,
      join_actions_eq_iff, target, hx, hy]
    simp [Naming.Keeps, bodiless, ClauseEffect.back]

theorem exists_operations_column {h : ColumnHead} {front : List Lexeme} (added : h.Added front)
    (named : table.name? = some name) (back : List Lexeme) (stop : Nat) :
    ∃ x y, Cursor.alterClause ⟨front ++ table :: back, stop⟩ = .ok x ∧
      Cursor.alterClause ⟨front ++ (q.lexemes ++ table :: back), stop⟩ = .ok y ∧
      y.AgreeIf x fun indent => (Naming.column h back).Keeps q.schema table indent := by
  obtain ⟨options, classified, read⟩ := added.exists_options stop
  refine ⟨_, _, read _, read _, fun indent altered => ?_⟩
  have hx := h.effect?_append classified (table :: back) altered
  have hy := h.effect?_append classified (q.lexemes ++ table :: back) altered
  have skipped : (ColumnClause.scan h.tokens).scanFrom
      (.identifier q.schema :: .punct '.' :: table.token ::
        clauseTokens 0 table.introducesName back) =
      (ColumnClause.scan h.tokens).scanFrom
        (table.token :: clauseTokens 0 table.introducesName back) := by
    rw [ColumnClause.scanFrom_cons _ rfl, ColumnClause.scanFrom_cons _ rfl]
  rw [clauseTokens_flat (flat_of_name? named), if_pos rfl, OptionSyntax.scanFrom_hidden] at hx
  rw [q.clauseTokens_append named, skipped] at hy
  rw [AlterOperation.code_column hx, AlterOperation.code_column hy]
  exact ⟨Iff.rfl, AlterOperation.back_eq_of_code hy hx⟩

theorem exists_operations {front back : List Lexeme} {naming : Naming}
    (h : ClauseNames front back naming) (named : table.name? = some name) (stop : Nat) :
    ∃ x y, Cursor.alterClause ⟨front ++ table :: back, stop⟩ = .ok x ∧
      Cursor.alterClause ⟨front ++ (q.lexemes ++ table :: back), stop⟩ = .ok y ∧
      y.AgreeIf x fun indent => naming.Keeps q.schema table indent := by
  cases h with
  | renamed h => exact q.exists_operations_renamed h named back stop
  | listed verb bracket inside =>
      exact q.exists_operations_listed verb bracket _ _ stop
  | foreignKey verb h => exact q.exists_operations_foreignKey verb h named back stop
  | column added => exact q.exists_operations_column added named back stop

end Qualifier

/-! ## Statements -/

namespace Cursor

theorem atPunct_append {mark : Char} {xs ys : List Lexeme} (hx : atPunct ⟨xs, 0⟩ mark = false)
    (hy : atPunct ⟨ys, 0⟩ mark = false) (stop : Nat) : atPunct ⟨xs ++ ys, stop⟩ mark = false := by
  cases xs with
  | nil => exact hy
  | cons => exact hx

theorem exists_alterClauses {xs ys : List (List Lexeme)} {part : List Lexeme}
    {operations : List AlterOperation} (h : alterClauses (xs ++ part :: ys) = .ok operations) :
    ∃ as x bs, (ofSlice part).alterClause = .ok x ∧ operations = as ++ x :: bs ∧
      ∀ other y, (ofSlice other).alterClause = .ok y →
        alterClauses (xs ++ other :: ys) = .ok (as ++ y :: bs) := by
  induction xs generalizing operations with
  | nil =>
      rw [List.nil_append, alterClauses] at h
      cases here : (ofSlice part).alterClause with
      | error e => simp [here, bind, Except.bind] at h
      | ok x =>
          cases later : alterClauses ys with
          | error e => simp [here, later, bind, Except.bind] at h
          | ok bs =>
              simp only [here, later, bind, Except.bind, pure, Except.pure, Except.ok.injEq] at h
              refine ⟨[], x, bs, rfl, h.symm, ?_⟩
              intro other y read
              simp only [List.nil_append, alterClauses, read, later]
              rfl
  | cons first xs ih =>
      rw [List.cons_append, alterClauses] at h
      cases here : (ofSlice first).alterClause with
      | error e => simp [here, bind, Except.bind] at h
      | ok operation =>
          cases later : alterClauses (xs ++ part :: ys) with
          | error e => simp [here, later, bind, Except.bind] at h
          | ok others =>
              simp only [here, later, bind, Except.bind, pure, Except.pure, Except.ok.injEq] at h
              obtain ⟨as, x, bs, found, rfl, replaced⟩ := ih later
              refine ⟨operation :: as, x, bs, found, h.symm, ?_⟩
              intro other y read
              simp only [List.cons_append, alterClauses, here, replaced other y read]
              rfl

end Cursor

namespace Qualifier

variable (q : Qualifier) {table : Lexeme} {name : String}

/-- An alteration behind a qualifier is read, and its migration stays the same exactly if the
    code of the clause does. -/
theorem exists_alterTable {altered : String} {ls clauses front rest back : List Lexeme}
    {naming : Naming} (denoted : Denotes altered ls)
    (ended : Cursor.atPunct ⟨clauses, 0⟩ '.' = false)
    (last : (splitCommas 0 clauses).getLast? = some front)
    (first : (splitCommas (clauses.foldl depthAfter 0) (table :: rest)).head? =
      some (table :: back))
    (place : ClauseNames front back naming) (named : table.name? = some name) {stop : Nat}
    {statement : AlterTable}
    (read : Cursor.alterTable ⟨ls ++ (clauses ++ table :: rest), stop⟩ = .ok statement) :
    ∃ statement', Cursor.alterTable ⟨ls ++ (clauses ++ (q.lexemes ++ table :: rest)), stop⟩ =
        .ok statement' ∧
      ∀ indent, Migration.squash [.alter statement'] indent =
        Migration.squash [.alter statement] indent ↔ naming.Keeps q.schema table indent := by
  have undotted : Cursor.atPunct ⟨table :: rest, 0⟩ '.' = false := by
    cases token : table.token with
    | punct mark => simp [name?, token] at named
    | keyword | identifier | literal => simp [Cursor.atPunct, token, Token.isPunct]
  have undotted' : Cursor.atPunct ⟨q.lexemes ++ table :: rest, 0⟩ '.' = false := by
    simp [Cursor.atPunct, lexemes, q.spelled, Token.isPunct]
  have name {ys : List Lexeme} (h : Cursor.atPunct ⟨ys, 0⟩ '.' = false) :=
    Cursor.name_denoted denoted (Cursor.atPunct_append ended h stop)
  have nonempty : table :: back ≠ [] := List.cons_ne_nil _ _
  obtain ⟨earlier, later, bare, qualified⟩ := q.exists_commaParts last first
  simp only [Cursor.alterTable, name undotted, name undotted', bind, Except.bind, bare,
    qualified] at read ⊢
  cases all : Cursor.alterClauses (earlier ++ (front ++ table :: back) :: later) with
  | error e => simp [all] at read
  | ok operations =>
      obtain ⟨as, x, bs, here, rfl, replaced⟩ := Cursor.exists_alterClauses all
      obtain ⟨x', y, hx, hy, agree⟩ := q.exists_operations place named
        (Cursor.ofSlice (table :: back)).stop
      rw [Cursor.ofSlice_append front nonempty, hx, Except.ok.injEq] at here
      subst here
      rw [← List.append_assoc, ← Cursor.ofSlice_append (front ++ q.lexemes) nonempty,
        List.append_assoc] at hy
      have some (z : AlterOperation) : (as ++ z :: bs).isEmpty = false := by simp
      simp only [all, some, Bool.false_eq_true, if_false, pure, Except.pure,
        Except.ok.injEq] at read
      refine ⟨⟨altered, as ++ y :: bs⟩, by simp [replaced _ y hy, pure, Except.pure], ?_⟩
      intro indent
      rw [← read, AlterTable.squash_eq_iff altered as bs fun table => (agree indent table).2]
      exact (agree indent _).1

theorem exists_statement {before rest : List Lexeme} {naming : Naming}
    (h : Lexeme.Names table before rest naming) (named : table.name? = some name) {stop : Nat}
    {statement : Option Statement}
    (read : Cursor.statement ⟨before ++ table :: rest, stop⟩ = .ok statement) :
    ∃ statement', Cursor.statement ⟨before ++ (q.lexemes ++ table :: rest), stop⟩ =
        .ok statement' ∧
      ∀ indent, Migration.each statement'.toList indent = Migration.each statement.toList indent ↔
        naming.Keeps q.schema table indent := by
  cases h with
  | read met =>
      refine ⟨statement, ?_, fun indent => by simp [Naming.Keeps]⟩
      rw [q.statement_append met named, read]
  | @clause _ _ ls clauses _ _ _ _ opens denoted ended last first place =>
      simp only [List.append_assoc, Cursor.statement_alter opens] at read ⊢
      cases alteration : Cursor.alterTable ⟨ls ++ (clauses ++ table :: rest), stop⟩ with
      | error e => simp [alteration, Except.map] at read
      | ok found =>
          obtain ⟨found', read', kept⟩ := q.exists_alterTable denoted ended last first place named
            alteration
          rw [alteration] at read
          obtain rfl : some (.alter found) = statement := Except.ok.inj read
          refine ⟨some (.alter found'), by simp [read', Except.map], ?_⟩
          intro indent
          simpa [Migration.each_eq_map] using kept indent

end Qualifier

/-! ## Scripts -/

namespace Script

theorem chunks_append_eq_meet (xs ys : List Lexeme) :
    chunks (xs ++ ys) = meet (chunks xs) (chunks ys) := by
  induction xs with
  | nil =>
      obtain ⟨chunk, rest, split⟩ := List.exists_cons_of_ne_nil (chunks_ne_nil ys)
      simp [chunks, meet, split, joinFirst]
  | cons l xs ih =>
      obtain ⟨chunk, rest, split⟩ := List.exists_cons_of_ne_nil (chunks_ne_nil xs)
      have read (ls : List Lexeme) (h : chunks ls ≠ []) : chunks (l :: ls) =
          if l.token.isPunct ';' then [] :: chunks ls else joinFirst [l] (chunks ls) := by
        obtain ⟨chunk, rest, split⟩ := List.exists_cons_of_ne_nil h
        simp [chunks, split, joinFirst]
      rw [List.cons_append, read _ (chunks_ne_nil _), read _ (chunks_ne_nil _), ih]
      split
      · rw [meet_cons (chunks_ne_nil xs)]
      · rw [meet_joinFirst (chunks_ne_nil xs)]

theorem exists_statements {xs ys : List (List Lexeme)} {chunk : List Lexeme}
    {found : List Statement} (h : statements (xs ++ chunk :: ys) = .ok found) :
    ∃ as statement bs, (Cursor.ofSlice chunk).statement = .ok statement ∧
      found = as ++ (statement.toList ++ bs) ∧
      ∀ other statement', (Cursor.ofSlice other).statement = .ok statement' →
        statements (xs ++ other :: ys) = .ok (as ++ (statement'.toList ++ bs)) := by
  simp only [statements_append, statements] at h ⊢
  cases earlier : statements xs with
  | error e => simp [earlier, bind, Except.bind] at h
  | ok as =>
      cases here : (Cursor.ofSlice chunk).statement with
      | error e => simp [earlier, here, bind, Except.bind, Except.map] at h
      | ok statement =>
          cases later : statements ys with
          | error e => simp [earlier, here, later, bind, Except.bind, Except.map] at h
          | ok bs =>
              simp only [earlier, here, later, bind, Except.bind, Except.map, pure, Except.pure,
                Except.ok.injEq] at h
              refine ⟨as, statement, bs, rfl, h.symm, ?_⟩
              intro other statement' read
              simp only [read, bind, Except.bind, Except.map, pure, Except.pure]

end Script

theorem Qualifier.chunks_append (q : Qualifier) (rest : List Lexeme) :
    Script.chunks (q.lexemes ++ rest) = joinFirst q.lexemes (Script.chunks rest) := by
  have alone : Script.chunks q.lexemes = [q.lexemes] := by
    simp [Script.chunks, lexemes, q.spelled, q.dotted, Token.isPunct]
  rw [Script.chunks_append_eq_meet, alone]
  rfl

namespace Script

/-- A script that is read as some lexemes, wherever they stand in it. -/
def ReadsAs (script : String) (lexemes : List Lexeme) : Prop :=
  (Lexeme.tokenize script).map (List.map (Lexeme.relocate fun _ => 0)) =
    .ok (lexemes.map (Lexeme.relocate fun _ => 0))

instance (script : String) (lexemes : List Lexeme) : Decidable (ReadsAs script lexemes) :=
  inferInstanceAs (Decidable (_ = _))

theorem parse_of_readsAs {script : String} {lexemes : List Lexeme} (h : ReadsAs script lexemes)
    {found : List Statement} (read : statements (chunks lexemes) = .ok found) :
    parse script = .ok found := by
  rw [ReadsAs] at h
  cases tokens : Lexeme.tokenize script with
  | error e => simp [tokens, Except.map] at h
  | ok ls =>
      simp only [tokens, Except.map, Except.ok.injEq] at h
      have moved := statements_relocate (fun _ => 0) (chunks ls)
      rw [← chunks_relocate, h, chunks_relocate, statements_relocate, read] at moved
      rw [parse, tokens]
      dsimp only
      cases here : statements (chunks ls) with
      | error e => simp [here] at moved
      | ok others =>
          rw [here] at moved
          exact moved.symm

/-- Where a script names a table, a qualifier in front of the name leaves a script that can be
    read, and the migrations stay the same exactly if the place keeps them: always where the
    reader of names meets the name; in a clause that renames the table or adds a foreign key,
    if the schema is called like the table and the name is not taken for an event; in a column
    that a clause adds, unless the name is a keyword that changes the column. -/
theorem qualified_keeps_iff {script qualified : String} {before rest : List Lexeme}
    {table : Lexeme} {naming : Naming} {found : List Statement} (q : Qualifier)
    (lexemes : Lexeme.tokenize script = .ok (before ++ table :: rest))
    (parsed : parse script = .ok found) (names : Names table before rest naming)
    (reads : ReadsAs qualified (before ++ (q.lexemes ++ table :: rest))) :
    ∃ found', parse qualified = .ok found' ∧
      ∀ indent, Migration.each found' indent = Migration.each found indent ↔
        naming.Keeps q.schema table indent := by
  obtain ⟨name, named⟩ := Option.isSome_iff_exists.mp names.named
  obtain ⟨front, back, last, first, place⟩ := names.place
  obtain ⟨earlier, fronts⟩ := List.getLast?_eq_some_iff.mp last
  obtain ⟨later, backs⟩ := List.head?_eq_some_iff.mp first
  have bare : chunks (before ++ table :: rest) = earlier ++ (front ++ table :: back) :: later := by
    rw [chunks_append_eq_meet, fronts, backs, meet_append_singleton]
  have qualified : chunks (before ++ (q.lexemes ++ table :: rest)) =
      earlier ++ (front ++ (q.lexemes ++ table :: back)) :: later := by
    rw [chunks_append_eq_meet, q.chunks_append, fronts, backs, joinFirst, meet_append_singleton]
  rw [parse, lexemes] at parsed
  dsimp only at parsed
  rw [bare] at parsed
  obtain ⟨as, statement, bs, here, rfl, replaced⟩ := exists_statements parsed
  have nonempty : table :: back ≠ [] := List.cons_ne_nil _ _
  rw [Cursor.ofSlice_append front nonempty] at here
  obtain ⟨statement', here', kept⟩ := q.exists_statement place named here
  rw [← List.append_assoc, ← Cursor.ofSlice_append (front ++ q.lexemes) nonempty,
    List.append_assoc] at here'
  refine ⟨_, parse_of_readsAs reads (qualified ▸ replaced _ _ here'), ?_⟩
  intro indent
  rw [← kept indent]
  simp [Migration.each_eq_map]

/-- A dropped table keeps its migration, a new name does not. -/
theorem qualified_keeps_drop_not_rename :
    (∃ found, parse "DROP TABLE s.t" = .ok found ∧
      ∀ indent, Migration.each found indent = Migration.each [.drop ⟨["t"]⟩] indent) ∧
    (∃ found, parse "ALTER TABLE t RENAME TO s.u" = .ok found ∧
      ∀ indent, Migration.each found indent ≠
        Migration.each [.alter ⟨"t", [⟨["RENAME", "TO"], none, [.identifier "u"]⟩]⟩] indent) := by
  have drop : Lexeme.Opens "DROP" "TEMPORARY"
      [⟨.keyword "DROP", "DROP", 0, 4⟩, ⟨.keyword "TABLE", "TABLE", 5, 10⟩] := .bare rfl rfl
  have alter : Lexeme.Opens "ALTER" "IGNORE"
      [⟨.keyword "ALTER", "ALTER", 0, 5⟩, ⟨.keyword "TABLE", "TABLE", 6, 11⟩] := .bare rfl rfl
  have rename : RenameHead
      [⟨.keyword "RENAME", "RENAME", 14, 20⟩, ⟨.keyword "TO", "TO", 21, 23⟩] := .renameTo rfl rfl
  refine ⟨?_, ?_⟩
  · obtain ⟨found, read, kept⟩ := qualified_keeps_iff
      ⟨"s", ⟨.identifier "s", "s", 11, 12⟩, ⟨.punct '.', ".", 12, 13⟩, rfl, rfl⟩
      (by decide +kernel : Lexeme.tokenize "DROP TABLE t" =
        .ok ([⟨.keyword "DROP", "DROP", 0, 4⟩, ⟨.keyword "TABLE", "TABLE", 5, 10⟩] ++
          ⟨.identifier "t", "t", 11, 12⟩ :: []))
      (by decide +kernel : parse "DROP TABLE t" = .ok [.drop ⟨["t"]⟩])
      ⟨rfl, _, _, rfl, rfl, .read (.dropped drop (.absent rfl) .nil)⟩
      (by decide +kernel : ReadsAs "DROP TABLE s.t" _)
    exact ⟨found, read, fun indent => (kept indent).mpr trivial⟩
  · obtain ⟨found, read, kept⟩ := qualified_keeps_iff
      ⟨"s", ⟨.identifier "s", "s", 24, 25⟩, ⟨.punct '.', ".", 25, 26⟩, rfl, rfl⟩
      (by decide +kernel : Lexeme.tokenize "ALTER TABLE t RENAME TO u" =
        .ok ([⟨.keyword "ALTER", "ALTER", 0, 5⟩, ⟨.keyword "TABLE", "TABLE", 6, 11⟩,
          ⟨.identifier "t", "t", 12, 13⟩, ⟨.keyword "RENAME", "RENAME", 14, 20⟩,
          ⟨.keyword "TO", "TO", 21, 23⟩] ++ ⟨.identifier "u", "u", 24, 25⟩ :: []))
      (by decide +kernel : parse "ALTER TABLE t RENAME TO u" =
        .ok [.alter ⟨"t", [⟨["RENAME", "TO"], none, [.identifier "u"]⟩]⟩])
      ⟨rfl, _, _, rfl, rfl, .clause alter (.last rfl) rfl rfl rfl (.renamed rename [])⟩
      (by decide +kernel : ReadsAs "ALTER TABLE t RENAME TO s.u" _)
    refine ⟨found, read, fun indent same => ?_⟩
    have called : some "u" = some "s" := (kept indent).mp same
    exact absurd called (by decide)

/-- A table is renamed to the schema. -/
theorem qualified_differs_rename :
    parse "ALTER TABLE t RENAME TO u" =
      .ok [.alter ⟨"t", [⟨["RENAME", "TO"], none, [.identifier "u"]⟩]⟩] ∧
    parse "ALTER TABLE t RENAME TO s.u" =
      .ok [.alter ⟨"t", [⟨["RENAME", "TO"], none,
        [.identifier "s", .punct '.', .identifier "u"]⟩]⟩] ∧
    Migration.each [.alter ⟨"t", [⟨["RENAME", "TO"], none,
        [.identifier "s", .punct '.', .identifier "u"]⟩]⟩] 0 ≠
      Migration.each [.alter ⟨"t", [⟨["RENAME", "TO"], none, [.identifier "u"]⟩]⟩] 0 := by
  refine ⟨?_, ?_, ?_⟩
  · decide +kernel
  · decide +kernel
  · decide +kernel

end Script

end TableShift
