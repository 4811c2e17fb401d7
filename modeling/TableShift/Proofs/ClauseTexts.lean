import TableShift.Proofs.ClauseNames
import TableShift.Proofs.ColumnAgreement
import TableShift.Proofs.Literals
import TableShift.Proofs.Remarks
import TableShift.Proofs.Reversal

/-! # Clauses read off the text

The block of an alteration shows each clause where it stands. So two alterations that
differ in one clause have the same code exactly if the two clauses have. From its code the
new name of a table can be read, and the target of a foreign key.
-/

namespace TableShift

/-! ## Blocks -/

/-- Lines as they stand in a block at a level, each with its end. -/
def Line.spread (indent : Nat) : List Line → String
  | [] => ""
  | l :: ls => l.code indent ++ "\n" ++ spread indent ls

namespace Line

theorem spread_append (indent : Nat) (xs ys : List Line) :
    spread indent (xs ++ ys) = spread indent xs ++ spread indent ys := by
  induction xs with
  | nil => simp [spread]
  | cons x xs ih => simp only [List.cons_append, spread, ih, String.append_assoc]

theorem intercalate_spread (indent : Nat) (first last : String) (ls : List Line) :
    "\n".intercalate (first :: (ls.map (code indent) ++ [last])) =
      first ++ ("\n" ++ (spread indent ls ++ last)) := by
  induction ls generalizing first with
  | nil =>
      rw [List.map_nil, List.nil_append, String.intercalate_cons_cons, String.intercalate_singleton,
        spread, String.empty_append, String.append_assoc]
  | cons l ls ih =>
      rw [List.map_cons, List.cons_append, String.intercalate_cons_cons, ih, spread]
      simp only [String.append_assoc]

theorem spread_eq_empty_iff (indent : Nat) (ls : List Line) : spread indent ls = "" ↔ ls = [] := by
  cases ls with
  | nil => simp [spread]
  | cons l ls => simp [spread]

end Line

theorem SchemaCommand.exists_code_alter (indent : Nat) (table : String) :
    ∃ opening closing : String, ∀ body : List TableCommand, code indent [.alter table body] =
      opening ++ ("\n" ++ (Line.spread indent (Line.deeper 1 (body.flatMap TableCommand.lines)) ++
        closing)) := by
  refine ⟨"Schema::table(" ++ quote table ++ ", function (Blueprint $table) \x7b",
    tabs indent ++ "\x7d);", fun body => ?_⟩
  rw [code_alter]
  exact Line.intercalate_spread indent _ _ _

theorem SchemaCommand.code_alter_eq_iff (indent : Nat) (table : String) (xs ys : List TableCommand) :
    code indent [.alter table xs] = code indent [.alter table ys] ↔
      Line.spread indent (Line.deeper 1 (xs.flatMap TableCommand.lines)) =
        Line.spread indent (Line.deeper 1 (ys.flatMap TableCommand.lines)) := by
  obtain ⟨opening, closing, shown⟩ := exists_code_alter indent table
  rw [shown, shown, String.append_right_inj, String.append_right_inj, String.append_left_inj]

/-! ## One clause among others -/

theorem AlterOperation.up_effect? (operation : AlterOperation) (table other : String) :
    (operation.effect? table).map ClauseEffect.up =
      (operation.effect? other).map ClauseEffect.up := by
  have column (tokens : List Token) (change : Bool) :
      (operation.columnEffect? table tokens change).map ClauseEffect.up =
        (operation.columnEffect? other tokens change).map ClauseEffect.up := by
    unfold columnEffect?
    cases tokens with
    | nil => rfl
    | cons token tokens =>
        cases token with
        | identifier newName =>
            dsimp only
            cases Option.bind _ (Declaration.of? · _ _) <;> cases change <;> rfl
        | keyword | literal | punct => rfl
  unfold effect?
  cases AlterKind.classify? operation.options operation.tokens with
  | none => rfl
  | some classified =>
      obtain ⟨kind, tokens⟩ := classified
      cases kind with
      | addColumn => exact column tokens false
      | changeColumn => exact column tokens true
      | addIndex | addUnique | addFullText =>
          simp only [keyEffect?]
          cases (parameterTexts tokens).isEmpty <;> rfl
      | addConstraint =>
          simp only [constraintEffect?]
          cases tokensAfter? (·.isKeyword "FOREIGN KEY") tokens with
          | none => rfl
          | some rest =>
              dsimp only
              cases (parameterTexts rest).isEmpty <;> rfl
      | dropColumn | dropIndex | dropForeignKey =>
          simp only [dropEffect?]
          cases operation.target? tokens <;> rfl
      | renameTable =>
          simp only [renameTableEffect?]
          cases operation.target? tokens <;> rfl
      | renameColumn | renameIndex =>
          simp only [renameEffect?]
          cases operation.field with
          | none => rfl
          | some oldName =>
              dsimp only
              cases Option.bind (tokensAfter? (·.isKeyword "TO") tokens) _ <;> rfl

/-- What a clause writes in the block of an alteration. -/
def AlterOperation.code (operation : AlterOperation) (indent : Nat) (table : String) : String :=
  Line.spread indent (Line.deeper 1 (operation.lines table))

namespace AlterTable

theorem effects_append (table : String) (xs ys : List AlterOperation) :
    effects table (xs ++ ys) =
      effects table xs ++ effects (finalTable table (effects table xs)) ys := by
  induction xs generalizing table with
  | nil => rfl
  | cons operation xs ih =>
      rw [List.cons_append, effects, effects]
      cases operation.effect? table with
      | none => exact ih table
      | some effect =>
          simp only [List.cons_append, finalTable_cons, ih]

theorem up_effects (operations : List AlterOperation) (table other : String) :
    (effects table operations).flatMap ClauseEffect.up =
      (effects other operations).flatMap ClauseEffect.up := by
  induction operations generalizing table other with
  | nil => rfl
  | cons operation operations ih =>
      have same := operation.up_effect? table other
      rw [effects, effects]
      cases here : operation.effect? table with
      | none =>
          rw [here] at same
          rw [Option.map_eq_none_iff.mp same.symm]
          exact ih table other
      | some effect =>
          rw [here] at same
          obtain ⟨effect', found, up⟩ := Option.map_eq_some_iff.mp same.symm
          rw [found]
          simp only [List.flatMap_cons, up, ih effect.table effect'.table]

theorem code_up_eq_iff (table : String) (xs ys : List AlterOperation) (x y : AlterOperation)
    (indent : Nat) :
    SchemaCommand.code indent (step ⟨table, xs ++ x :: ys⟩).up =
        SchemaCommand.code indent (step ⟨table, xs ++ y :: ys⟩).up ↔
      x.code indent (finalTable table (effects table xs)) =
        y.code indent (finalTable table (effects table xs)) := by
  have commands (z : AlterOperation) (name : String) :
      (effects name (z :: ys)).flatMap ClauseEffect.up =
        (z.effect? name).toList.flatMap ClauseEffect.up ++
          (effects name ys).flatMap ClauseEffect.up := by
    rw [effects]
    cases z.effect? name with
    | none => rfl
    | some effect => simp [up_effects ys effect.table name]
  have shown (z : AlterOperation) :
      Line.spread indent (Line.deeper 1
        (((effects table (xs ++ z :: ys)).flatMap ClauseEffect.up).flatMap TableCommand.lines)) =
      Line.spread indent (Line.deeper 1
        (((effects table xs).flatMap ClauseEffect.up).flatMap TableCommand.lines)) ++
      (z.code indent (finalTable table (effects table xs)) ++
        Line.spread indent (Line.deeper 1
          (((effects (finalTable table (effects table xs)) ys).flatMap
            ClauseEffect.up).flatMap TableCommand.lines))) := by
    rw [effects_append, List.flatMap_append, commands, List.flatMap_append, List.flatMap_append]
    simp only [Line.deeper, List.map_append, Line.spread_append, AlterOperation.code,
      AlterOperation.lines]
  rw [step, step, SchemaCommand.code_alter_eq_iff, shown, shown, String.append_right_inj,
    String.append_left_inj]

end AlterTable

/-- How a clause is taken back, and on which table. -/
def ClauseEffect.back (effect : ClauseEffect) : TableCommand × String :=
  (effect.down, effect.table)

namespace AlterTable

theorem back_effects {x y : AlterOperation} {table : String}
    (h : (x.effect? table).map ClauseEffect.back = (y.effect? table).map ClauseEffect.back)
    (operations : List AlterOperation) :
    (effects table (x :: operations)).map ClauseEffect.back =
      (effects table (y :: operations)).map ClauseEffect.back := by
  rw [effects, effects]
  cases hx : x.effect? table with
  | none =>
      rw [hx] at h
      rw [Option.map_eq_none_iff.mp h.symm]
  | some effect =>
      rw [hx] at h
      obtain ⟨effect', hy, same⟩ := Option.map_eq_some_iff.mp h.symm
      obtain ⟨_, tables⟩ := Prod.mk.inj same
      simp only [hy, List.map_cons, same, tables]

theorem down_step (statement : AlterTable) :
    (step statement).down =
      [.alter ((((effects statement.table statement.operations).map
          ClauseEffect.back).getLast?.map Prod.snd).getD statement.table)
        (((effects statement.table statement.operations).map ClauseEffect.back).map
          Prod.fst).reverse] := by
  have last (es : List ClauseEffect) :
      (es.map ClauseEffect.back).getLast?.map Prod.snd = es.getLast?.map ClauseEffect.table := by
    rw [List.getLast?_map, Option.map_map]
    rfl
  rw [last, List.map_map]
  rfl

/-- Alterations that differ in one clause have the same migration exactly if the clauses have
    the same code, where the code tells how a clause is taken back. -/
theorem squash_eq_iff (table : String) (xs ys : List AlterOperation) {x y : AlterOperation}
    {indent : Nat} (h : ∀ name, x.code indent name = y.code indent name →
      (x.effect? name).map ClauseEffect.back = (y.effect? name).map ClauseEffect.back) :
    Migration.squash [.alter ⟨table, xs ++ x :: ys⟩] indent =
        Migration.squash [.alter ⟨table, xs ++ y :: ys⟩] indent ↔
      x.code indent (finalTable table (effects table xs)) =
        y.code indent (finalTable table (effects table xs)) := by
  rw [Migration.squash_singleton, Migration.squash_singleton, Migration.mk.injEq]
  simp only [Statement.step, code_up_eq_iff, and_iff_left_iff_imp]
  intro same
  have down : (step ⟨table, xs ++ x :: ys⟩).down = (step ⟨table, xs ++ y :: ys⟩).down := by
    simp only [down_step, effects_append, List.map_append, back_effects (h _ same)]
  rw [down]

end AlterTable

/-! ## What a clause tells -/

theorem AlterOperation.code_rename_eq_iff {x y : AlterOperation} {table a b : String}
    (hx : x.effect? table = some ⟨[.rename a], .rename table, a⟩)
    (hy : y.effect? table = some ⟨[.rename b], .rename table, b⟩) (indent : Nat) :
    x.code indent table = y.code indent table ↔ a = b := by
  have shown (z : AlterOperation) (c : String)
      (h : z.effect? table = some ⟨[.rename c], .rename table, c⟩) :
      z.code indent table =
        tabs (indent + 1) ++ ("$table->rename(" ++ (quote c ++ (");" ++ "\n"))) := by
    simp only [code, lines, h, Option.toList_some, List.flatMap_cons, List.flatMap_nil,
      List.append_nil, TableCommand.lines, Line.deeper, List.map_cons, List.map_nil, Line.spread,
      Line.code, Nat.zero_add, String.append_empty, String.append_assoc]
  rw [shown x a hx, shown y b hy, String.append_right_inj, String.append_right_inj]
  constructor
  · intro same
    exact (quote_append_inj same).1
  · rintro rfl
    rfl

namespace Line

theorem pushLast_append_singleton (fragment : String) (ls : List Line) (last : Line) :
    pushLast fragment (ls ++ [last]) = ls ++ [⟨last.depth, last.text ++ fragment⟩] := by
  induction ls with
  | nil => rfl
  | cons l ls ih =>
      have several : ∀ more : List Line, more ≠ [] →
          pushLast fragment (l :: more) = l :: pushLast fragment more := by
        intro more nonempty
        cases more with
        | nil => exact absurd rfl nonempty
        | cons => rfl
      rw [List.cons_append, several _ (by simp), ih, List.cons_append]

end Line

/-- The table that a foreign key refers to, as the code shows it behind the line before. -/
def onCode (indent : Nat) (table : String) : String :=
  if table.isEmpty then "" else "\n" ++ (tabs (indent + 2) ++ onTableCode table)

theorem exists_spread_foreignLines (indent : Nat) (columns : List String) (name : Option String)
    (targets : List String) :
    ∃ front : String, ∀ (table : String) (options : List ReferenceOption),
      Line.spread indent (Line.deeper 1 (foreignLines columns name (some ⟨table, targets, options⟩))) =
        front ++ (onCode indent table ++
          (String.join (options.map ReferenceOption.code) ++ (";" ++ "\n"))) := by
  obtain ⟨ls, last, lines⟩ : ∃ ls last, (⟨0, keyCode .foreign columns name⟩ : Line) ::
      (if targets.isEmpty then [] else [⟨1, NameMethod.references.chain targets⟩]) =
        ls ++ [last] := by
    cases targets.isEmpty with
    | true => exact ⟨[], _, rfl⟩
    | false => exact ⟨[_], _, rfl⟩
  refine ⟨Line.spread indent (Line.deeper 1 ls) ++ Line.code indent ⟨last.depth + 1, last.text⟩, ?_⟩
  intro table options
  have all : foreignLines columns name (some ⟨table, targets, options⟩) =
      Line.pushLast (String.join (options.map ReferenceOption.code) ++ ";")
        ((ls ++ [last]) ++ if table.isEmpty then [] else [⟨1, onTableCode table⟩]) := by
    rw [← lines]
    rfl
  rw [all, onCode]
  cases table.isEmpty with
  | true =>
      rw [if_pos rfl, if_pos rfl, List.append_nil, Line.pushLast_append_singleton]
      simp only [Line.deeper, List.map_append, List.map_cons, List.map_nil, Line.spread_append,
        Line.spread, Line.code, String.append_empty, String.empty_append, String.append_assoc]
  | false =>
      rw [if_neg Bool.false_ne_true, if_neg Bool.false_ne_true, Line.pushLast_append_singleton]
      simp only [Line.deeper, List.map_append, List.map_cons, List.map_nil, Line.spread_append,
        Line.spread, Line.code, String.append_empty, String.append_assoc]

theorem ReferenceOption.head?_code (option : ReferenceOption) (rest : String) :
    (option.code ++ rest).toList.head? = some '-' := by
  have start (a b c d : String) : (("->" ++ a ++ b ++ c ++ d) ++ rest).toList.head? = some '-' := by
    simp [String.toList_append]
  exact start _ _ _ _

theorem head?_actions (options : List ReferenceOption) :
    (String.join (options.map ReferenceOption.code) ++ (";" ++ "\n")).toList.head? ≠ some '\n' := by
  cases options with
  | nil => decide
  | cons option options =>
      rw [List.map_cons, String.join_cons, String.append_assoc, option.head?_code]
      decide

theorem onCode_append_eq_iff (indent : Nat) (a b : String) (xs ys : List ReferenceOption) :
    onCode indent a ++ (String.join (xs.map ReferenceOption.code) ++ (";" ++ "\n")) =
        onCode indent b ++ (String.join (ys.map ReferenceOption.code) ++ (";" ++ "\n")) ↔
      a = b ∧ String.join (xs.map ReferenceOption.code) =
        String.join (ys.map ReferenceOption.code) := by
  have breaks (table rest : String) (h : table.isEmpty = false) :
      (onCode indent table ++ rest).toList.head? = some '\n' := by
    simp [onCode, h, String.toList_append]
  have absent (table : String) (h : table.isEmpty = true) (rest : String) :
      table = "" ∧ onCode indent table ++ rest = rest := by
    simp [onCode, String.isEmpty_iff.mp h]
  constructor
  · intro same
    cases ha : a.isEmpty with
    | true =>
        rw [(absent a ha _).2] at same
        cases hb : b.isEmpty with
        | true =>
            rw [(absent b hb _).2, String.append_left_inj] at same
            exact ⟨(absent a ha "").1.trans (absent b hb "").1.symm, same⟩
        | false =>
            have first := head?_actions xs
            rw [same, breaks b _ hb] at first
            exact absurd rfl first
    | false =>
        cases hb : b.isEmpty with
        | true =>
            have first := head?_actions ys
            rw [(absent b hb _).2] at same
            rw [← same, breaks a _ ha] at first
            exact absurd rfl first
        | false =>
            simp only [onCode, ha, hb, Bool.false_eq_true, if_false, onTableCode,
              String.append_assoc, String.append_right_inj] at same
            obtain ⟨table, rest⟩ := quote_append_inj same
            rw [String.append_right_inj, String.append_left_inj] at rest
            exact ⟨table, rest⟩
  · rintro ⟨rfl, actions⟩
    rw [actions]

theorem AlterOperation.code_foreign_eq_iff {x y : AlterOperation} {table a b : String}
    {columns targets : List String} {name : Option String} {down : TableCommand}
    {xs ys : List ReferenceOption}
    (hx : x.effect? table = some ⟨[.foreign columns name (some ⟨a, targets, xs⟩)], down, table⟩)
    (hy : y.effect? table = some ⟨[.foreign columns name (some ⟨b, targets, ys⟩)], down, table⟩)
    (indent : Nat) :
    x.code indent table = y.code indent table ↔
      a = b ∧ String.join (xs.map ReferenceOption.code) =
        String.join (ys.map ReferenceOption.code) := by
  obtain ⟨front, shown⟩ := exists_spread_foreignLines indent columns name targets
  simp only [code, lines, hx, hy, Option.toList_some, List.flatMap_cons, List.flatMap_nil,
    List.append_nil, TableCommand.lines, shown, String.append_right_inj, onCode_append_eq_iff]

/-- An action among others is seen. -/
theorem join_actions_eq_iff (xs ys : List ReferenceOption) (option : Option ReferenceOption) :
    String.join ((xs ++ (option.toList ++ ys)).map ReferenceOption.code) =
        String.join ((xs ++ ys).map ReferenceOption.code) ↔ option = none := by
  simp only [List.map_append, String.join_append, String.append_right_inj]
  cases option with
  | none => simp
  | some option =>
      have visible : option.code ≠ "" := by
        intro empty
        have start := option.head?_code ""
        rw [empty] at start
        cases start
      simp [visible]

/-- What a column that is added writes in the block of an alteration. -/
def ColumnClause.code (clause : ColumnClause) (indent : Nat) (column : String) : String :=
  Line.spread indent (Line.deeper 1 ((clause.command? column).toList.flatMap TableCommand.lines))

theorem ColumnClause.code_eq_empty_iff (clause : ColumnClause) (indent : Nat) (column : String) :
    clause.code indent column = "" ↔ clause.command? column = none := by
  rw [code, Line.spread_eq_empty_iff, command?]
  cases Option.bind _ (Declaration.of? · column _) with
  | none => simp [Line.deeper]
  | some declaration =>
      simp only [Option.map_some, Option.toList_some, List.flatMap_cons, List.flatMap_nil,
        List.append_nil, TableCommand.lines, Line.deeper, List.map_eq_nil_iff, reduceCtorEq,
        iff_false]
      intro empty
      exact absurd (Line.pushLast_eq_nil empty) (List.cons_ne_nil _ _)

namespace AlterOperation

variable {x y : AlterOperation} {table column : String} {down : TableCommand}
  {a b : ColumnClause}

theorem code_column
    (hx : x.effect? table = (a.command? column).map fun command => ⟨[command], down, table⟩)
    (indent : Nat) : x.code indent table = a.code indent column := by
  rw [code, lines, hx, ColumnClause.code]
  cases a.command? column with
  | none => rfl
  | some command => simp

theorem back_eq_of_code
    (hx : x.effect? table = (a.command? column).map fun command => ⟨[command], down, table⟩)
    (hy : y.effect? table = (b.command? column).map fun command => ⟨[command], down, table⟩)
    {indent : Nat} (h : a.code indent column = b.code indent column) :
    (x.effect? table).map ClauseEffect.back = (y.effect? table).map ClauseEffect.back := by
  have empty := a.code_eq_empty_iff indent column
  rw [h, b.code_eq_empty_iff] at empty
  rw [hx, hy]
  cases ha : a.command? column with
  | none => rw [empty.mpr ha]
  | some command =>
      cases hb : b.command? column with
      | none => simp [empty.mp hb] at ha
      | some command' => rfl

end AlterOperation

end TableShift
