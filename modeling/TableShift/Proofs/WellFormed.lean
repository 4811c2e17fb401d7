import TableShift.Sql.Script

/-! # Statements that are read are well formed

Steps are made of statements without a second look: a table has fields, a field is either
a column or a key, a key has columns and a foreign key a target, and every option stands
in the list and in the form that its name asks for. All of this holds of whatever is read
from a script. Each reader gives something well formed, given that those it calls do.
-/

namespace TableShift

/-! ## Well-formed statements -/

/-- The bare options of a type. -/
def typeFlagNames : List String := ["UNSIGNED", "SIGNED", "ZEROFILL"]

/-- The options of a type that carry a value. -/
def typeValueNames : List String := ["CHARACTER SET", "COLLATE"]

/-- The options of a column that carry a value. -/
def columnValueNames : List String := ["DEFAULT", "COMMENT", "ON UPDATE", "AFTER"]

namespace ColumnOption

/-- The options that stand at a type. -/
inductive OfType : ColumnOption → Prop where
  | flag {name : String} (known : name ∈ typeFlagNames) : OfType (.flag name)
  | keyValue {name : String} (known : name ∈ typeValueNames) (value : Value) :
      OfType (.keyValue name value)

/-- The options that stand at a column: those with a value carry one, and all but those
    of the type and those with a value are bare. -/
inductive OfColumn : ColumnOption → Prop where
  | flag {name : String} (notTypeFlag : name ∉ typeFlagNames)
      (notTypeValue : name ∉ typeValueNames) (notValue : name ∉ columnValueNames) :
      OfColumn (.flag name)
  | keyValue {name : String} (known : name ∈ columnValueNames) (value : Value) :
      OfColumn (.keyValue name value)

end ColumnOption

/-- A key has columns, and a target exactly if it is a foreign key. -/
structure Key.WellFormed (key : Key) : Prop where
  columns : key.columns ≠ []
  references : key.references.isSome ↔ key.kind = .foreign

/-- A key that a column declares in place: a primary or unique key on that column. -/
structure Key.InPlace (column : String) (key : Key) : Prop extends key.WellFormed where
  kind : key.kind = .primary ∨ key.kind = .unique
  ownColumn : key.columns = [⟨column, none⟩]

/-- A field is a column with its name and type, or a key and nothing besides the name of
    its constraint. -/
inductive Field.WellFormed : Field → Prop where
  | column (name : String) (type : ColumnType) (options : List ColumnOption) (key : Option Key)
      (typeOptions : ∀ option ∈ type.options, option.OfType)
      (columnOptions : ∀ option ∈ options, option.OfColumn)
      (inPlace : ∀ k ∈ key, k.InPlace name) :
      WellFormed ⟨some name, some type, options, key⟩
  | key (name : Option String) (key : Key) (wellFormed : key.WellFormed) :
      WellFormed ⟨name, none, [], some key⟩

/-- A new table has fields, an alteration clauses that start with a word, and a drop
    names tables. -/
def Statement.WellFormed : Statement → Prop
  | create statement => statement.fields ≠ [] ∧ ∀ field ∈ statement.fields, field.WellFormed
  | alter statement =>
    statement.operations ≠ [] ∧ ∀ operation ∈ statement.operations, operation.options ≠ []
  | drop statement => statement.tables ≠ []

/-! ## What reading gives -/

/-- Whatever is read, if anything is, satisfies a condition. -/
def Gives {α : Type} (result : Except SyntaxError α) (condition : α → Prop) : Prop :=
  ∀ a, result = .ok a → condition a

namespace Gives

variable {α β : Type} {P : α → Prop} {Q : β → Prop}

theorem ok {a : α} (h : P a) : Gives (.ok a) P := by
  intro b read
  cases read
  exact h

theorem error (e : SyntaxError) : Gives (.error e) P := by
  intro b read
  cases read

theorem complain (c : Cursor) (complaint : Complaint) : Gives (c.complain complaint) P :=
  error _

/-- Something is read, and then something else that depends on it. -/
theorem bind {x : Except SyntaxError α} {k : α → Except SyntaxError β} (first : Gives x P)
    (second : ∀ a, P a → Gives (k a) Q) : Gives (x >>= k) Q := by
  cases x with
  | error e => exact error e
  | ok a => exact second a (first a rfl)

theorem bind_any {x : Except SyntaxError α} {k : α → Except SyntaxError β}
    (second : ∀ a, Gives (k a) Q) : Gives (x >>= k) Q :=
  bind (P := fun _ => True) (fun _ _ => trivial) fun a _ => second a

theorem map {x : Except SyntaxError α} {g : α → β} (h : Gives x fun a => Q (g a)) :
    Gives (x.map g) Q := by
  cases x with
  | error e => exact error e
  | ok a => exact ok (h a rfl)

end Gives

namespace Cursor

/-! ### Keys -/

theorem keyClause_gives (c : Cursor) : Gives c.keyClause fun key => ∀ k ∈ key, k.WellFormed := by
  unfold keyClause
  split
  · exact .complain c _
  · split
    · exact .ok (by simp)
    · rename_i kind _
      refine .bind_any ?_
      rintro ⟨name, c⟩
      refine .bind_any ?_
      rintro ⟨inside, c⟩
      refine .bind_any ?_
      intro columns
      split
      · exact .complain c _
      · rename_i listed
        have columned : columns ≠ [] := by simpa using listed
        split
        · rename_i foreign
          refine .bind_any ?_
          rintro ⟨target, _⟩
          refine .ok fun k found => ?_
          cases Option.mem_some.mp found
          exact ⟨columned, by simp [foreign]⟩
        · rename_i plain
          refine .ok fun k found => ?_
          cases Option.mem_some.mp found
          exact ⟨columned, by simp [plain]⟩

end Cursor

/-! ### Columns -/

/-- The words that have a meaning among the options of a column; for a key, the kinds. -/
def OptionRole.Fits (word : String) : OptionRole → Prop
  | typeFlag => word ∈ typeFlagNames
  | typeValue => word ∈ typeValueNames
  | value => word ∈ columnValueNames
  | key kind => kind = .primary ∨ kind = .unique
  | flag => word ∉ typeFlagNames ∧ word ∉ typeValueNames ∧ word ∉ columnValueNames
  | check | reference => True

theorem OptionRole.fits_ofKeyword (word : String) : (ofKeyword word).Fits word := by
  unfold ofKeyword
  split <;> simp_all [Fits, typeFlagNames, typeValueNames, columnValueNames]

/-- The options of a column `column` are in their lists, and its key is on it. -/
structure ColumnTail.WellFormed (column : String) (tail : ColumnTail) : Prop where
  typeOptions : ∀ option ∈ tail.typeOptions, option.OfType
  options : ∀ option ∈ tail.options, option.OfColumn
  key : ∀ key ∈ tail.key, key.InPlace column

namespace ColumnTail.WellFormed

variable {column : String} {tail : ColumnTail}

theorem nil : WellFormed column {} :=
  ⟨by simp, by simp, by simp⟩

theorem consType (h : tail.WellFormed column) {option : ColumnOption} (placed : option.OfType) :
    (tail.consType option).WellFormed column :=
  { h with typeOptions := List.forall_mem_cons.mpr ⟨placed, h.typeOptions⟩ }

theorem consOption (h : tail.WellFormed column) {option : ColumnOption}
    (placed : option.OfColumn) : (tail.consOption option).WellFormed column :=
  { h with options := List.forall_mem_cons.mpr ⟨placed, h.options⟩ }

theorem consKey (h : tail.WellFormed column) {key : Key} (placed : key.InPlace column) :
    (tail.consKey key).WellFormed column := by
  refine { h with key := fun k found => ?_ }
  rcases Option.or_eq_some_iff.mp found with kept | ⟨_, new⟩
  · exact h.key k kept
  · cases new
    exact placed

end ColumnTail.WellFormed

namespace Cursor

theorem optionValue_gives {c : Cursor} {size : Nat} (h : c.rest.length < size) :
    Gives c.optionValue fun read => read.2.rest.length < size :=
  fun _ found => Nat.lt_trans (length_lt_of_optionValue found) h

theorem group_gives {c : Cursor} {size : Nat} (h : c.rest.length < size) :
    Gives c.group fun read => read.2.rest.length < size :=
  fun _ found => Nat.lt_trans (length_lt_of_group found) h

theorem columnTail_gives (column : String) (c : Cursor) :
    Gives (c.columnTail column) (·.WellFormed column) := by
  -- Along the lexemes left; a value or a group can take any number of them.
  induction count : c.rest.length using Nat.strongRecOn generalizing c with
  | ind size ih =>
      cases hrest : c.rest with
      | nil =>
          rw [columnTail_nil column hrest]
          exact .ok .nil
      | cons l ls =>
          have shorter : c.next.rest.length < size := count ▸ length_next_lt hrest
          have further := ih _ shorter c.next rfl
          rw [columnTail_cons column hrest]
          cases l.token.keyword? with
          | none => exact further
          | some word =>
              have named := OptionRole.fits_ofKeyword word
              dsimp only
              cases role : OptionRole.ofKeyword word with
              | reference => exact .ok .nil
              | typeFlag =>
                  rw [role] at named
                  exact .map fun tail read => (further tail read).consType (.flag named)
              | flag =>
                  rw [role] at named
                  exact .map fun tail read =>
                    (further tail read).consOption (.flag named.1 named.2.1 named.2.2)
              | key kind =>
                  rw [role] at named
                  refine .map fun tail read => (further tail read).consKey ?_
                  exact ⟨⟨by simp, by rcases named with rfl | rfl <;> simp⟩, named, rfl⟩
              | typeValue =>
                  rw [role] at named
                  refine .bind (optionValue_gives shorter) ?_
                  rintro ⟨value, after⟩ left
                  exact .map fun tail read =>
                    (ih _ left after rfl tail read).consType (.keyValue named value)
              | value =>
                  rw [role] at named
                  refine .bind (optionValue_gives shorter) ?_
                  rintro ⟨value, after⟩ left
                  exact .map fun tail read =>
                    (ih _ left after rfl tail read).consOption (.keyValue named value)
              | check =>
                  dsimp only
                  split
                  · refine .bind (group_gives shorter) ?_
                    rintro ⟨inside, after⟩ left
                    exact ih _ left after rfl
                  · exact further

theorem column_gives (c : Cursor) : Gives c.column Field.WellFormed := by
  unfold column
  refine .bind_any ?_
  rintro ⟨name, c⟩
  dsimp only
  split
  · exact .complain c _
  · refine .bind_any ?_
    rintro ⟨parameters, c⟩
    refine .bind (columnTail_gives name c) ?_
    intro tail placed
    exact .ok (.column _ _ _ _ placed.typeOptions placed.options placed.key)

theorem definition_gives (c : Cursor) :
    Gives c.definition fun field => ∀ f ∈ field, f.WellFormed := by
  have keyed (name : Option String) (c : Cursor) :
      Gives (c.keyClause >>= fun key =>
          pure (key.map fun key => ({ name, key := some key } : Field)))
        fun field => ∀ f ∈ field, f.WellFormed := by
    refine .bind (keyClause_gives c) ?_
    intro key wellFormed
    refine .ok fun f found => ?_
    obtain ⟨k, present, rfl⟩ := Option.map_eq_some_iff.mp found
    exact .key name k (wellFormed k present)
  unfold definition
  split
  · dsimp only
    split
    · split
      · exact keyed none c.next
      · refine .bind_any ?_
        rintro ⟨name, c⟩
        exact keyed (some name) c
    · exact keyed none c
  · refine .bind (column_gives c) ?_
    intro field wellFormed
    refine .ok fun f found => ?_
    cases Option.mem_some.mp found
    exact wellFormed

/-! ### Statements -/

theorem definitions_gives (parts : List (List Lexeme)) :
    Gives (definitions parts) fun fields => ∀ f ∈ fields, f.WellFormed := by
  induction parts with
  | nil => exact .ok (by simp)
  | cons part parts ih =>
      refine .bind (definition_gives (ofSlice part)) ?_
      intro field first
      refine .bind ih ?_
      intro fields others
      refine .ok fun f member => ?_
      rcases List.mem_append.mp member with here | later
      · exact first f (Option.mem_toList.mp here)
      · exact others f later

theorem createTable_gives (c : Cursor) :
    Gives c.createTable fun s => (Statement.create s).WellFormed := by
  unfold createTable
  refine .bind_any ?_
  rintro ⟨table, c⟩
  refine .bind_any ?_
  rintro ⟨body, c⟩
  refine .bind (definitions_gives _) ?_
  intro fields wellFormed
  split
  · exact .complain c _
  · rename_i some_field
    exact .ok ⟨by simpa using some_field, wellFormed⟩

theorem columnClause_gives (c : Cursor) (word : String) (words : List String) :
    Gives (c.columnClause (word :: words)) fun operation => operation.options ≠ [] :=
  .bind_any fun _ => .ok (List.cons_ne_nil word words)

theorem addClause_gives (c : Cursor) :
    Gives c.addClause fun operation => operation.options ≠ [] := by
  unfold addClause
  split
  · exact columnClause_gives _ _ _
  · split
    · dsimp only
      split
      · exact .ok (by simp)
      · exact .bind_any fun _ => .ok (by simp)
    · split
      · exact .ok (by simp)
      · exact columnClause_gives _ _ _
  · split
    · exact .ok (by simp)
    · exact columnClause_gives _ _ _

theorem changeClause_gives (c : Cursor) (verb : String) (tokens : List Lexeme → List Token) :
    Gives (c.changeClause verb tokens) fun operation => operation.options ≠ [] := by
  refine .bind_any fun read => .ok ?_
  dsimp only
  split <;> simp

theorem dropClause_gives (c : Cursor) :
    Gives c.dropClause fun operation => operation.options ≠ [] := by
  unfold dropClause
  split
  · split
    · exact .bind_any fun _ => .ok (by simp)
    · split
      · exact .ok (by simp)
      · exact .bind_any fun _ => .ok (by simp)
  · exact .bind_any fun _ => .ok (by simp)

theorem renameClause_gives (c : Cursor) :
    Gives c.renameClause fun operation => operation.options ≠ [] := by
  unfold renameClause
  split
  · exact .ok (by simp)
  · exact .ok (by simp)
  · split
    · exact .bind_any fun _ => .ok (by simp)
    · exact .ok (by simp)
  · exact .ok (by simp)

theorem alterClause_gives (c : Cursor) :
    Gives c.alterClause fun operation => operation.options ≠ [] := by
  unfold alterClause
  split
  · exact .complain c _
  · split
    · exact .ok (by simp)
    · exact addClause_gives _
    · exact changeClause_gives _ _ _
    · exact changeClause_gives _ _ _
    · exact dropClause_gives _
    · exact renameClause_gives _
    · exact .ok (by simp)

theorem alterClauses_gives (parts : List (List Lexeme)) :
    Gives (alterClauses parts) fun operations => ∀ o ∈ operations, o.options ≠ [] := by
  induction parts with
  | nil => exact .ok (by simp)
  | cons part parts ih =>
      refine .bind (alterClause_gives (ofSlice part)) ?_
      intro operation first
      refine .bind ih ?_
      intro operations others
      exact .ok (List.forall_mem_cons.mpr ⟨first, others⟩)

theorem alterTable_gives (c : Cursor) :
    Gives c.alterTable fun s => (Statement.alter s).WellFormed := by
  unfold alterTable
  refine .bind_any ?_
  rintro ⟨table, c⟩
  refine .bind (alterClauses_gives _) ?_
  intro operations worded
  split
  · exact .complain c _
  · rename_i some_clause
    exact .ok ⟨by simpa using some_clause, worded⟩

theorem dropTable_gives (c : Cursor) :
    Gives c.dropTable fun s => (Statement.drop s).WellFormed := by
  refine .bind (P := fun tables => tables ≠ []) ?_ ?_
  · rw [tableNames_eq]
    refine .bind_any ?_
    intro read
    split
    · exact .map fun _ _ => List.cons_ne_nil _ _
    · exact .ok (List.cons_ne_nil _ _)
  · intro tables named
    exact .ok named

theorem statement_gives (c : Cursor) :
    Gives c.statement fun statement => ∀ s ∈ statement, s.WellFormed := by
  have only {s : Statement} (wellFormed : s.WellFormed) : ∀ t ∈ some s, t.WellFormed := by
    intro t found
    cases Option.mem_some.mp found
    exact wellFormed
  unfold statement
  dsimp only
  split
  · split
    · exact .map fun s read => only (createTable_gives _ s read)
    · exact .ok (by simp)
  · split
    · split
      · exact .map fun s read => only (alterTable_gives _ s read)
      · exact .ok (by simp)
    · split
      · split
        · exact .map fun s read => only (dropTable_gives _ s read)
        · exact .ok (by simp)
      · exact .ok (by simp)

end Cursor

namespace Script

theorem statements_gives (chunks : List (List Lexeme)) :
    Gives (statements chunks) fun found => ∀ s ∈ found, s.WellFormed := by
  induction chunks with
  | nil => exact .ok (by simp)
  | cons chunk chunks ih =>
      refine .bind (Cursor.statement_gives (.ofSlice chunk)) ?_
      intro statement first
      refine .bind ih ?_
      intro found others
      refine .ok fun s member => ?_
      rcases List.mem_append.mp member with here | later
      · exact first s (Option.mem_toList.mp here)
      · exact others s later

/-- Every statement that is read from a script is well formed. -/
theorem parse_wellFormed {script : String} {found : List Statement}
    (h : parse script = .ok found) : ∀ s ∈ found, s.WellFormed := by
  unfold parse at h
  split at h
  · exact statements_gives _ found h
  · cases h

/-- A column with options of both kinds and a key in place, a foreign key, an alteration
    and a drop. -/
theorem parse_wellFormed_notes :
    let script := "CREATE TABLE notes (id INT(10) UNSIGNED DEFAULT 1 NOT NULL KEY,
      CONSTRAINT fk FOREIGN KEY (id) REFERENCES texts (id), CHECK (id > 0));
      ALTER TABLE notes engine = x; SET a = 1; DROP TABLE notes"
    let found : List Statement := [
      .create ⟨"notes", [
        ⟨some "id", some ⟨"INT", ["10"], [.flag "UNSIGNED"]⟩,
          [.keyValue "DEFAULT" (.number "1"), .flag "NOT NULL"],
          some ⟨.primary, none, [⟨"id", none⟩], none⟩⟩,
        ⟨some "fk", none, [],
          some ⟨.foreign, none, [⟨"id", none⟩], some ⟨"texts", ["id"], []⟩⟩⟩]⟩,
      .alter ⟨"notes", [⟨["ENGINE"], none, [.punct '=', .identifier "x"]⟩]⟩,
      .drop ⟨["notes"]⟩]
    parse script = .ok found ∧ ∀ s ∈ found, s.WellFormed := by
  intro script found
  have read : parse script = .ok found := by decide +kernel
  exact ⟨read, parse_wellFormed read⟩

end Script

end TableShift
