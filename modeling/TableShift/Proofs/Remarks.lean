import TableShift.Proofs.BatchRuns
import TableShift.Proofs.ClauseEffects
import TableShift.Sql.Script
import TableShift.Text.Lines

/-! # Remarks on what cannot be undone

Where a statement cannot be taken back, its down code has a remark instead of a command.
A remark holds the name it is about as it stands, line feeds included, and what follows a
line feed is code again. So a remark stays one exactly if every line feed of its name is
followed by tabs and two slashes, as in every name that has no line feed.
-/

namespace TableShift

/-! ## Texts that are remarks line by line -/

/-- Whether a text starts with two slashes, after tabs. -/
def startsRemark (cs : List Char) : Bool :=
  (cs.dropWhile (· == '\t')).take 2 == ['/', '/']

/-- Whether every line feed of a text is followed by tabs and two slashes. -/
def breaksIntoRemarks : List Char → Bool
  | [] => true
  | c :: cs => (c != '\n' || startsRemark cs) && breaksIntoRemarks cs

/-- Every line of a text starts with two slashes, after tabs. -/
def OnlyRemarks (text : String) : Prop :=
  ∀ line ∈ textLines text, startsRemark line.toList

instance (text : String) : Decidable (OnlyRemarks text) :=
  inferInstanceAs (Decidable (∀ line ∈ textLines text, startsRemark line.toList))

section Plain

variable {c : Char} (noSlash : c ≠ '/') (noTab : c ≠ '\t')
include noSlash noTab

theorem startsRemark_append (xs ys : List Char) :
    startsRemark (xs ++ c :: ys) = startsRemark xs := by
  induction xs with
  | nil => simp [startsRemark, noTab, noSlash]
  | cons x xs ih =>
      by_cases tab : x = '\t'
      · simpa [startsRemark, tab] using ih
      · cases xs with
        | nil => simp [startsRemark, tab, noSlash]
        | cons y xs => simp [startsRemark, tab]

theorem breaksIntoRemarks_append (xs ys : List Char) :
    breaksIntoRemarks (xs ++ c :: ys) = (breaksIntoRemarks xs && breaksIntoRemarks (c :: ys)) := by
  induction xs with
  | nil => simp [breaksIntoRemarks]
  | cons x xs ih =>
      rw [List.cons_append, breaksIntoRemarks, ih, startsRemark_append noSlash noTab,
        ← Bool.and_assoc, ← breaksIntoRemarks]

end Plain

theorem breaksIntoRemarks_of_unbroken {xs : List Char} (unbroken : '\n' ∉ xs) (ys : List Char) :
    breaksIntoRemarks (xs ++ ys) = breaksIntoRemarks ys := by
  induction xs with
  | nil => rfl
  | cons x xs ih =>
      rw [List.mem_cons, not_or] at unbroken
      have plain : (x != '\n') = true := by simpa using Ne.symm unbroken.1
      rw [List.cons_append, breaksIntoRemarks, plain, ih unbroken.2, Bool.true_or, Bool.true_and]

theorem startsRemark_dropReturn (line : List Char) :
    startsRemark (dropReturn line) = startsRemark line := by
  unfold dropReturn
  split
  · rename_i last
    obtain ⟨front, rfl⟩ := List.getLast?_eq_some_iff.mp last
    rw [List.dropLast_concat, startsRemark_append (by decide) (by decide)]
  · rfl

/-- The lines of a text are remarks if its first is, and one follows each line feed. -/
theorem forall_linesFrom_iff {line cs : List Char} (ended : cs.getLast? ≠ some '\n')
    (some_text : line ++ cs ≠ []) :
    (∀ l ∈ linesFrom line cs, startsRemark l) ↔
      startsRemark (line.reverse ++ cs) ∧ breaksIntoRemarks cs := by
  induction cs generalizing line with
  | nil =>
      have started : line.isEmpty = false := by simpa using some_text
      simp [linesFrom, started, breaksIntoRemarks]
  | cons c cs ih =>
      rw [linesFrom]
      split
      · rename_i feed
        subst feed
        have later : cs ≠ [] := by
          rintro rfl
          simp at ended
        have last : cs.getLast? ≠ some '\n' := by
          rwa [List.getLast?_cons_of_ne_nil later] at ended
        rw [List.forall_mem_cons, startsRemark_dropReturn, ih last (by simpa using later),
          startsRemark_append (by decide) (by decide)]
        simp [breaksIntoRemarks]
      · rename_i plain
        have last : cs.getLast? ≠ some '\n' := by
          cases cs with
          | nil => simp
          | cons d cs => simpa using ended
        rw [ih last (by simp), breaksIntoRemarks]
        simp [plain]

/-- Whether a text starts with a remark and goes on with one after each line feed. -/
def isRemarks (text : String) : Bool :=
  startsRemark text.toList && breaksIntoRemarks text.toList

theorem onlyRemarks_iff {text : String} (ended : text.toList.getLast? ≠ some '\n')
    (some_text : text ≠ "") : OnlyRemarks text ↔ isRemarks text = true := by
  have start : ([] : List Char) ++ text.toList ≠ [] := by simpa using some_text
  simpa [OnlyRemarks, textLines, isRemarks] using forall_linesFrom_iff ended start

theorem isRemarks_intercalate (text : String) (texts : List String) :
    isRemarks ("\n".intercalate (text :: texts)) = (text :: texts).all isRemarks := by
  induction texts generalizing text with
  | nil => simp
  | cons next texts ih =>
      have step : isRemarks (text ++ "\n" ++ "\n".intercalate (next :: texts)) =
          (isRemarks text && isRemarks ("\n".intercalate (next :: texts))) := by
        simp only [isRemarks, String.toList_append, List.append_assoc]
        rw [show "\n".toList = ['\n'] from rfl, List.singleton_append,
          startsRemark_append (by decide) (by decide),
          breaksIntoRemarks_append (by decide) (by decide), breaksIntoRemarks]
        simp [Bool.and_assoc]
      rw [String.intercalate_cons_cons, step, ih, ← List.all_cons]

/-! ## Remarks -/

theorem startsRemark_tabs (level : Nat) (cs : List Char) :
    startsRemark ((tabs level).toList ++ cs) = startsRemark cs := by
  rw [tabs, String.toList_ofList]
  induction level with
  | zero => rfl
  | succ level ih =>
      rw [← ih]
      simp [startsRemark, List.replicate_succ]

/-- A remark is one to its end exactly if the name in it stays one. -/
theorem isRemarks_remarkCode (level : Nat) {operation : String} (target : String)
    (unbroken : '\n' ∉ operation.toList) :
    isRemarks (tabs level ++ remarkCode operation target) = breaksIntoRemarks target.toList := by
  have parts (a b c d e f : String) : (a ++ (b ++ c ++ d ++ e ++ f)).toList =
      (a.toList ++ b.toList ++ c.toList ++ d.toList) ++ (e.toList ++ f.toList) := by
    simp
  have text : (tabs level ++ remarkCode operation target).toList =
      ((tabs level).toList ++ "// Revert manually: ".toList ++ operation.toList ++ " ".toList) ++
        (target.toList ++ ' ' :: "(previous definition unknown)".toList) :=
    parts ..
  have front : '\n' ∉ (tabs level).toList ++ "// Revert manually: ".toList ++ operation.toList ++
      " ".toList := by
    simp [tabs, unbroken]
  have breaks : breaksIntoRemarks (tabs level ++ remarkCode operation target).toList =
      breaksIntoRemarks target.toList := by
    rw [text, breaksIntoRemarks_of_unbroken front, breaksIntoRemarks_append (by decide) (by decide)]
    have suffix : breaksIntoRemarks (' ' :: "(previous definition unknown)".toList) = true := by
      decide
    rw [suffix, Bool.and_true]
  have starts : startsRemark (tabs level ++ remarkCode operation target).toList = true := by
    rw [text, List.append_assoc, List.append_assoc, List.append_assoc, startsRemark_tabs]
    rfl
  rw [isRemarks, starts, breaks, Bool.true_and]

theorem getLast?_append_of_some {c : Char} (a : String) {b : String}
    (h : b.toList.getLast? = some c) : (a ++ b).toList.getLast? = some c := by
  rw [String.toList_append, List.getLast?_append, h, Option.some_or]

theorem getLast?_remarkCode (level : Nat) (operation target : String) :
    (tabs level ++ remarkCode operation target).toList.getLast? = some ')' := by
  have ends : " (previous definition unknown)".toList.getLast? = some ')' := by decide
  exact getLast?_append_of_some _ (getLast?_append_of_some _ ends)

theorem remarkCode_ne_empty (operation target : String) : remarkCode operation target ≠ "" := by
  intro empty
  have last := getLast?_remarkCode 0 operation target
  rw [empty] at last
  simp [tabs] at last

theorem getLast?_intercalate {c : Char} {text : String} {texts : List String}
    (h : ∀ t ∈ text :: texts, t.toList.getLast? = some c) :
    ("\n".intercalate (text :: texts)).toList.getLast? = some c := by
  induction texts generalizing text with
  | nil => simpa using h
  | cons next texts ih =>
      rw [List.forall_mem_cons] at h
      rw [String.intercalate_cons_cons]
      exact getLast?_append_of_some _ (ih h.2)

theorem onlyRemarks_remarks {operation : String} (unbroken : '\n' ∉ operation.toList)
    {remarks : List (Nat × String)} (some_remark : remarks ≠ []) :
    OnlyRemarks ("\n".intercalate (remarks.map fun r => tabs r.1 ++ remarkCode operation r.2)) ↔
      ∀ r ∈ remarks, breaksIntoRemarks r.2.toList = true := by
  obtain ⟨first, others, rfl⟩ := List.exists_cons_of_ne_nil some_remark
  have closed : ∀ t ∈ (first :: others).map fun r => tabs r.1 ++ remarkCode operation r.2,
      t.toList.getLast? = some ')' := by
    rw [List.forall_mem_map]
    intro r _
    exact getLast?_remarkCode r.1 operation r.2
  have last := getLast?_intercalate closed
  rw [List.map_cons, onlyRemarks_iff (by rw [last]; decide) ?_, isRemarks_intercalate]
  · simp [isRemarks_remarkCode _ _ unbroken]
  · intro empty
    simp [empty] at last

/-! ## Lines of a block -/

/-- A line as it is written in a block at a level, its first line aside. -/
def Line.code (level : Nat) (l : Line) : String :=
  tabs (level + l.depth) ++ l.text

theorem Draft.text_writeLines (ls : List Line) (d : Draft) (written : d.text ≠ "") :
    (d.writeLines ls).text = "\n".intercalate (d.text :: ls.map (Line.code d.level)) := by
  induction ls generalizing d with
  | nil => simp [writeLines]
  | cons l ls ih =>
      have step : d.writeLine l = ⟨d.text ++ "\n" ++ l.code d.level, d.level⟩ := by
        simp [writeLine, deeper, shallower, line, append, isEmpty, written, Line.code,
          String.append_assoc]
      rw [writeLines, List.foldl_cons, step, ← writeLines, ih _ (by simp), List.map_cons,
        String.intercalate_cons_append, String.intercalate_cons_cons]

theorem SchemaCommand.code_eq_intercalate (indent : Nat) {commands : List SchemaCommand}
    {first : Line} {ls : List Line} (lines : commands.flatMap lines = first :: ls)
    (visible : first.text ≠ "") :
    code indent commands = "\n".intercalate (first.text :: ls.map (Line.code indent)) := by
  have start : (Draft.atLevel indent).writeLine first = ⟨first.text, indent⟩ := by
    simp [Draft.writeLine, Draft.deeper, Draft.shallower, Draft.line, Draft.append, Draft.isEmpty,
      Draft.atLevel]
  rw [code, lines, Draft.writeLines, List.foldl_cons, start, ← Draft.writeLines,
    Draft.text_writeLines ls _ visible]

/-- The text of the block that alters a table, with these lines in it. -/
def SchemaCommand.alterText (indent : Nat) (table : String) (body : List Line) : String :=
  "\n".intercalate (("Schema::table(" ++ quote table ++ ", function (Blueprint $table) \x7b") ::
    (Line.deeper 1 body).map (Line.code indent) ++ [tabs indent ++ "\x7d);"])

theorem SchemaCommand.code_alter (indent : Nat) (table : String) (body : List TableCommand) :
    code indent [.alter table body] =
      alterText indent table (body.flatMap TableCommand.lines) := by
  have lines : [SchemaCommand.alter table body].flatMap SchemaCommand.lines =
      ⟨0, "Schema::table(" ++ quote table ++ ", function (Blueprint $table) \x7b"⟩ ::
        (Line.deeper 1 (body.flatMap TableCommand.lines) ++ [⟨0, "\x7d);"⟩]) := by
    simp only [List.flatMap_cons, List.flatMap_nil, List.append_nil, SchemaCommand.lines,
      blockLines]
    rfl
  have visible (a b : String) (h : b ≠ "") : a ++ b ≠ "" := by simp [h]
  rw [code_eq_intercalate indent lines (visible _ _ (by decide)), List.map_append]
  rfl

/-! ## Clauses in their turn -/

/-- The clauses that cannot be taken back from the statement alone. -/
def AlterKind.isIrreversible : AlterKind → Bool
  | changeColumn | dropColumn | dropIndex | dropForeignKey => true
  | _ => false

theorem AlterKind.unbroken_label (kind : AlterKind) : '\n' ∉ kind.label.toList := by
  cases kind <;> decide

namespace AlterTable

/-- A clause that contributes to an alteration, with the name of the table before it, what
    it does and what it contributes. -/
structure Turn where
  operation : AlterOperation
  table : String
  kind : AlterKind
  tokens : List Token
  effect : ClauseEffect
  classified : AlterKind.classify? operation.options operation.tokens = some (kind, tokens)
  effective : operation.effect? table = some effect

/-- The clauses that contribute to the alteration of a table, in their order. -/
def turnsFrom (table : String) : List AlterOperation → List Turn
  | [] => []
  | operation :: operations =>
    match classified : AlterKind.classify? operation.options operation.tokens,
        effective : operation.effect? table with
    | some (kind, tokens), some effect =>
      ⟨operation, table, kind, tokens, effect, classified, effective⟩ ::
        turnsFrom effect.table operations
    | _, _ => turnsFrom table operations

def turns (statement : AlterTable) : List Turn :=
  turnsFrom statement.table statement.operations

theorem map_effect_turnsFrom (table : String) (operations : List AlterOperation) :
    (turnsFrom table operations).map Turn.effect = effects table operations := by
  induction operations generalizing table with
  | nil => rfl
  | cons operation operations ih =>
      rw [turnsFrom, effects]
      split
      · rename_i effective
        simp only [effective, List.map_cons, ih]
      · rename_i inactive
        cases effective : operation.effect? table with
        | none => exact ih table
        | some effect =>
            obtain ⟨kind, tokens, classified, _⟩ :=
              AlterOperation.contributes_of_effect? effective
            exact absurd effective (inactive kind tokens effect classified)

/-- The code of a clause in the block that takes an alteration back. -/
def Turn.down (indent : Nat) (turn : Turn) : List String :=
  (Line.deeper 1 turn.effect.down.lines).map (Line.code indent)

/-- The line that opens the block that takes an alteration back. -/
def downOpening (statement : AlterTable) : String :=
  "Schema::table(" ++
    quote (finalTable statement.table (effects statement.table statement.operations)) ++
    ", function (Blueprint $table) \x7b"

/-- The block that takes an alteration back: between its first and last line stands what
    its clauses contribute, the last clause first. -/
theorem code_down_step (statement : AlterTable) (indent : Nat) :
    SchemaCommand.code indent statement.step.down =
      "\n".intercalate (statement.downOpening ::
        statement.turns.reverse.flatMap (Turn.down indent) ++ [tabs indent ++ "\x7d);"]) := by
  have commands : (effects statement.table statement.operations).map ClauseEffect.down =
      statement.turns.map fun turn => turn.effect.down := by
    rw [turns, ← map_effect_turnsFrom, List.map_map]
    rfl
  have body : (Line.deeper 1 (statement.turns.reverse.flatMap fun turn =>
      turn.effect.down.lines)).map (Line.code indent) =
        statement.turns.reverse.flatMap (Turn.down indent) := by
    rw [Line.deeper, List.map_flatMap, List.map_flatMap]
    rfl
  rw [step, commands, SchemaCommand.code_alter, ← List.map_reverse, List.flatMap_map,
    SchemaCommand.alterText, body, downOpening]

end AlterTable

/-! ## What cannot be undone -/

namespace AlterOperation

variable {operation : AlterOperation} {table : String} {tokens : List Token}
  {effect : ClauseEffect}

theorem remark_of_columnEffect? (h : operation.columnEffect? table tokens true = some effect) :
    ∃ name, operation.target? tokens = some name ∧
      effect.down = .remark AlterKind.changeColumn.label name := by
  unfold columnEffect? at h
  split at h
  · rename_i newName rest
    dsimp only at h
    split at h
    · simp at h
    · simp only [if_true, Option.some.injEq] at h
      refine ⟨operation.field.getD newName, ?_, ?_⟩
      · cases field : operation.field <;> simp [target?, field, Token.name?]
      · rw [← h]
  · simp at h

theorem remark_of_dropEffect? {kind : AlterKind} {method : NameMethod}
    (h : operation.dropEffect? table tokens kind method = some effect) :
    ∃ name, operation.target? tokens = some name ∧ effect.down = .remark kind.label name := by
  obtain ⟨name, target, rfl⟩ := Option.map_eq_some_iff.mp h
  exact ⟨name, target, rfl⟩

end AlterOperation

namespace AlterTable

theorem Turn.remark (turn : Turn) (h : turn.kind.isIrreversible = true) :
    ∃ name, turn.operation.target? turn.tokens = some name ∧
      turn.effect.down = .remark turn.kind.label name := by
  obtain ⟨operation, table, kind, tokens, effect, classified, effective⟩ := turn
  simp only [AlterOperation.effect?, classified] at effective
  cases kind with
  | changeColumn => exact AlterOperation.remark_of_columnEffect? effective
  | dropColumn | dropIndex | dropForeignKey =>
      exact AlterOperation.remark_of_dropEffect? effective
  | addColumn | addIndex | addUnique | addFullText | addConstraint | renameTable | renameColumn
    | renameIndex => simp [AlterKind.isIrreversible] at h

end AlterTable

theorem DropTable.code_down_step (table : String) (tables : List String) (indent : Nat) :
    SchemaCommand.code indent (step ⟨table :: tables⟩).down =
      "\n".intercalate (((0, table) :: tables.map (indent, ·)).map fun r =>
        tabs r.1 ++ remarkCode "DROP TABLE" r.2) := by
  have lines : (step ⟨table :: tables⟩).down.flatMap SchemaCommand.lines =
      ⟨0, remarkCode "DROP TABLE" table⟩ ::
        tables.map fun table => ⟨0, remarkCode "DROP TABLE" table⟩ := by
    simp only [step, List.flatMap_map, List.flatMap_cons, SchemaCommand.lines,
      ← List.map_eq_flatMap, List.singleton_append]
  rw [SchemaCommand.code_eq_intercalate indent lines (remarkCode_ne_empty _ _)]
  have bare (text : String) : tabs 0 ++ text = text := String.empty_append
  simp only [List.map_cons, List.map_map, Function.comp_def, Line.code, Nat.add_zero, bare]

namespace Migration

/-- What cannot be undone leaves only remarks in the down code, line by line, exactly if
    every line feed in the names that it is about is followed by tabs and two slashes. This
    is so of dropped tables, and of each clause of an alteration that changes a column or
    drops a column, an index or a foreign key: the down block is made of what the clauses
    contribute. -/
theorem down_onlyRemarks_iff (indent : Nat) :
    (∀ statement : DropTable, OnlyRemarks (squash [.drop statement] indent).down ↔
      ∀ table ∈ statement.tables, breaksIntoRemarks table.toList = true) ∧
    (∀ statement : AlterTable,
      (squash [.alter statement] indent).down =
        "\n".intercalate (statement.downOpening ::
          statement.turns.reverse.flatMap (AlterTable.Turn.down indent) ++
            [tabs indent ++ "\x7d);"]) ∧
      ∀ turn ∈ statement.turns, turn.kind.isIrreversible = true →
        ∃ name, turn.operation.target? turn.tokens = some name ∧
          (OnlyRemarks ("\n".intercalate (turn.down indent)) ↔
            breaksIntoRemarks name.toList = true)) := by
  refine ⟨?_, ?_⟩
  · rintro ⟨tables⟩
    rw [squash_singleton, Statement.step]
    cases tables with
    | nil =>
        have nothing : OnlyRemarks (SchemaCommand.code indent (DropTable.step ⟨[]⟩).down) :=
          fun line member => absurd member List.not_mem_nil
        simp [nothing]
    | cons table tables =>
        rw [DropTable.code_down_step, onlyRemarks_remarks (by decide) (List.cons_ne_nil _ _)]
        simp
  · intro statement
    refine ⟨?_, ?_⟩
    · rw [squash_singleton, Statement.step]
      exact statement.code_down_step indent
    · intro turn _ irreversible
      obtain ⟨name, target, remark⟩ := turn.remark irreversible
      refine ⟨name, target, ?_⟩
      have only : turn.down indent =
          [(indent + 1, name)].map fun r => tabs r.1 ++ remarkCode turn.kind.label r.2 := by
        simp [AlterTable.Turn.down, remark, TableCommand.lines, Line.deeper, Line.code]
      rw [only, onlyRemarks_remarks turn.kind.unbroken_label (List.cons_ne_nil _ _)]
      simp

/-- The second line of a table's name becomes code. -/
theorem down_not_onlyRemarks_lineFeed :
    Script.parse "DROP TABLE `a\nSchema::drop('users'); //`" =
      .ok [.drop ⟨["a\nSchema::drop('users'); //"]⟩] ∧
    ¬ OnlyRemarks (squash [.drop ⟨["a\nSchema::drop('users'); //"]⟩] 0).down := by
  refine ⟨?_, ?_⟩
  · decide +kernel
  · decide +kernel

end Migration

end TableShift
