import TableShift.Proofs.BatchRuns
import TableShift.Proofs.CodeActs
import TableShift.Proofs.FieldCommands
import TableShift.Proofs.Numerals

/-! # Migrations read back

The up code of a squashed migration is read back as the calls of its statements, in order,
exactly if each default that they write can stand in the parentheses of its call. Only a
default that is an expression can fail to. The down code of statements that only create, add
and rename holds names alone, and is always read back.
-/

namespace TableShift

/-! ## Defaults -/

theorem ArgumentPlace.endsAfter_doubleQuoted {text : List Char}
    (plain : ∀ c ∈ text, c ≠ '\\' ∧ c ≠ '"' ∧ c ≠ '$') (closers : List Char) :
    (literal closers '"' false).endsAfter (text ++ ['"']) = (between closers).endsAfter [] := by
  induction text with
  | nil => simp [endsAfter, next?]
  | cons c text ih =>
      rw [List.forall_mem_cons] at plain
      simpa [endsAfter, next?, plain.1] using ih plain.2

theorem isArguments_numeral {text : String} (h : isNumeric text = true) :
    IsArguments ("\"" ++ text ++ "\"") := by
  have plain : ∀ c ∈ text.toList, c ≠ '\\' ∧ c ≠ '"' ∧ c ≠ '$' := by
    intro c member
    have kind := isBlank_or_isNumeralChar h c member
    refine ⟨?_, ?_, ?_⟩ <;> rintro rfl <;> exact absurd kind (by decide)
  have inside := ArgumentPlace.endsAfter_doubleQuoted plain []
  simpa [IsArguments, ArgumentPlace.endsAfter, ArgumentPlace.next?] using inside

/-- A text, `NULL` and a numeral are literals in code. Only an expression is written as it
    stands. -/
theorem isArguments_defaultArgument {value : Value}
    (number : ∀ text, value = .number text → isNumeric text = true)
    (raw : ∀ sql, value = .expr sql → IsArguments sql) : IsArguments (defaultArgument value) := by
  have null : IsArguments "NULL" := by decide
  cases value with
  | null => exact null
  | string text => exact (closed_quote text).isArguments
  | number text => exact isArguments_numeral (number text rfl)
  | expr sql =>
      simp only [defaultArgument]
      split
      · exact null
      · split
        · exact isArguments_numeral ‹_›
        · exact raw sql rfl

/-! ## The statements of steps -/

/-- The kinds of clauses that can be taken back. -/
def AlterKind.isReversible : AlterKind → Bool
  | addColumn | addIndex | addUnique | addFullText | addConstraint | renameTable | renameColumn
  | renameIndex => true
  | changeColumn | dropColumn | dropIndex | dropForeignKey => false

theorem CreateTable.isStatement_body (statement : CreateTable) :
    ∀ command ∈ statement.body, command.IsStatement := by
  intro command member
  obtain ⟨field, _, column | ⟨key, _, declared⟩⟩ := mem_body_iff.mp member
  · obtain ⟨_, declaration, _, _, declared, rfl⟩ := Field.columnCommand?_eq_some_iff.mp column
    exact ⟨(Declaration.column_of? declared).2, _, rfl⟩
  · obtain rfl | ⟨_, rfl, _⟩ := Field.exists_of_keyCommand? declared <;> trivial

namespace AlterOperation

variable {table : String} {kind : AlterKind} {effect : ClauseEffect}

theorem isStatement_up_of_contributes (h : Contributes table kind effect) :
    ∀ command ∈ effect.up, command.IsStatement := by
  cases h with
  | addColumn declaration declared options =>
      exact List.forall_mem_singleton.mpr ⟨declared, options, rfl⟩
  | changeColumn declaration declared options newName =>
      refine List.forall_mem_cons.mpr ⟨⟨declared, options, rfl⟩, ?_⟩
      split
      · simp
      · exact List.forall_mem_singleton.mpr trivial
  | drop drops name =>
      refine List.forall_mem_singleton.mpr ?_
      rintro rfl
      cases kind <;> simp [AlterKind.droppedBy?] at drops
  | addKey | addConstraint | renameTable | renameColumn | renameIndex =>
      exact List.forall_mem_singleton.mpr trivial

theorem isStatement_down_of_contributes (h : Contributes table kind effect)
    (reversible : kind.isReversible = true) : effect.down.IsStatement := by
  cases h with
  | @addKey _ key _ adds drops columns listed name =>
      rintro rfl
      cases key <;> simp [KeyKind.dropMethod?] at drops
  | changeColumn => simp [AlterKind.isReversible] at reversible
  | drop drops =>
      cases kind <;> simp [AlterKind.isReversible, AlterKind.droppedBy?] at reversible drops
  | addColumn | addConstraint => simp [TableCommand.IsStatement]
  | renameTable | renameColumn | renameIndex => trivial

theorem defaults_down_of_contributes (h : Contributes table kind effect) :
    effect.down.defaults = [] := by
  cases h <;> rfl

end AlterOperation

namespace AlterTable

/-- Every recognised clause is of a kind that can be taken back. -/
def Reversible (statement : AlterTable) : Prop :=
  ∀ operation ∈ statement.operations,
    (AlterKind.classify? operation.options operation.tokens).all fun found =>
      found.1.isReversible
  deriving Decidable

theorem exists_of_mem_effects {table : String} {operations : List AlterOperation}
    {effect : ClauseEffect} (h : effect ∈ effects table operations) :
    ∃ operation ∈ operations, ∃ before, operation.effect? before = some effect := by
  induction operations generalizing table with
  | nil => simp [effects] at h
  | cons operation operations ih =>
      rw [effects] at h
      split at h
      · obtain ⟨other, listed, found⟩ := ih h
        exact ⟨other, List.mem_cons_of_mem _ listed, found⟩
      · rename_i here
        rcases List.mem_cons.mp h with rfl | later
        · exact ⟨operation, List.mem_cons_self .., table, here⟩
        · obtain ⟨other, listed, found⟩ := ih later
          exact ⟨other, List.mem_cons_of_mem _ listed, found⟩

end AlterTable

namespace Statement

/-- A statement that creates a table, or that only adds and renames. -/
def Reversible : Statement → Prop
  | create _ => True
  | alter statement => statement.Reversible
  | drop _ => False

instance : DecidablePred Reversible
  | create _ => inferInstanceAs (Decidable True)
  | alter statement => inferInstanceAs (Decidable statement.Reversible)
  | drop _ => inferInstanceAs (Decidable False)

theorem isStatement_up (statement : Statement) :
    ∀ command ∈ statement.step.up, command.IsStatement := by
  cases statement with
  | create statement => exact List.forall_mem_singleton.mpr statement.isStatement_body
  | alter statement =>
      refine List.forall_mem_singleton.mpr fun command member => ?_
      obtain ⟨effect, listed, written⟩ := List.mem_flatMap.mp member
      obtain ⟨operation, _, table, found⟩ := AlterTable.exists_of_mem_effects listed
      obtain ⟨kind, _, _, shape⟩ := AlterOperation.contributes_of_effect? found
      exact AlterOperation.isStatement_up_of_contributes shape command written
  | drop statement => exact List.forall_mem_map.mpr fun _ _ => trivial

theorem isStatement_down {statement : Statement} (reversible : statement.Reversible) :
    ∀ command ∈ statement.step.down, command.IsStatement := by
  cases statement with
  | create statement => exact List.forall_mem_singleton.mpr trivial
  | alter statement =>
      refine List.forall_mem_singleton.mpr fun command member => ?_
      obtain ⟨effect, listed, rfl⟩ := List.mem_map.mp (List.mem_reverse.mp member)
      obtain ⟨operation, member, table, found⟩ := AlterTable.exists_of_mem_effects listed
      obtain ⟨kind, _, classified, shape⟩ := AlterOperation.contributes_of_effect? found
      have undoable : kind.isReversible = true := by
        simpa [classified] using reversible operation member
      exact AlterOperation.isStatement_down_of_contributes shape undoable
  | drop statement => exact reversible.elim

/-- Each default that a statement writes can stand in the parentheses of its call. -/
def Legible (statement : Statement) : Prop :=
  ∀ command ∈ statement.step.up, ∀ text ∈ command.defaults, IsArguments text
  deriving Decidable

theorem defaults_down (statement : Statement) :
    ∀ command ∈ statement.step.down, command.defaults = [] := by
  cases statement with
  | create statement => exact List.forall_mem_singleton.mpr rfl
  | alter statement =>
      refine List.forall_mem_singleton.mpr (List.flatMap_eq_nil_iff.mpr fun command member => ?_)
      obtain ⟨effect, listed, rfl⟩ := List.mem_map.mp (List.mem_reverse.mp member)
      obtain ⟨operation, _, table, found⟩ := AlterTable.exists_of_mem_effects listed
      obtain ⟨kind, _, _, shape⟩ := AlterOperation.contributes_of_effect? found
      exact AlterOperation.defaults_down_of_contributes shape
  | drop statement => exact List.forall_mem_map.mpr fun _ _ => rfl

end Statement

/-! ## Squashed migrations -/

namespace Migration

theorem blank_blockSeparator (indent : Nat) :
    ∀ c ∈ (blockSeparator indent).toList, c.isWhitespace = true := by
  simp +decide [blockSeparator, tabs]

theorem read?_joinBlocks {statements : List Statement} (indent : Nat)
    (commands : Statement → List SchemaCommand) (visible : ∀ s ∈ statements, commands s ≠ [])
    (h : ∀ s ∈ statements, ∀ command ∈ commands s, command.IsStatement)
    (defaults : ∀ s ∈ statements, ∀ command ∈ commands s, ∀ text ∈ command.defaults,
      IsArguments text) :
    Code.read? (Batch.joinBlocks indent
        (statements.map fun s => SchemaCommand.code indent (commands s))) =
      some ((statements.flatMap commands).flatMap SchemaCommand.calls) := by
  have each : ∀ s ∈ statements,
      Code.Reads Code.schemaCalls? (SchemaCommand.code indent (commands s)).toList
        ((commands s).flatMap SchemaCommand.calls) :=
    fun s member => Code.reads_code (h s member)
      (List.forall_mem_flatMap.mpr (defaults s member)) indent
  rw [Batch.joinBlocks_eq_intercalate indent
    (List.forall_mem_map.mpr fun s member => SchemaCommand.code_ne_empty indent (visible s member)),
    List.flatMap_assoc]
  exact Code.read?_of_reads (Code.reads_intercalate (blank_blockSeparator indent) _ _ each)

theorem read?_squash_up_iff {statements : List Statement} (indent : Nat)
    (named : ∀ s ∈ statements, s ≠ .drop ⟨[]⟩) :
    Code.read? (squash statements indent).up =
        some ((statements.flatMap fun s => s.step.up).flatMap SchemaCommand.calls) ↔
      ∀ s ∈ statements, s.Legible := by
  constructor
  · intro read s member command listed
    refine SchemaCommand.isArguments_defaults fun call found => ?_
    exact Code.isArguments_of_read? read call
      (List.mem_flatMap_of_mem (List.mem_flatMap_of_mem member listed) found)
  · intro legible
    rw [squash_up statements indent named]
    exact read?_joinBlocks indent _ (fun s member => (Statement.step_ne_nil (named s member)).1)
      (fun s _ => s.isStatement_up) legible

/-- What takes creations, additions and renames back writes no defaults. -/
theorem read?_squash_down {statements : List Statement} (indent : Nat)
    (reversible : ∀ s ∈ statements, s.Reversible) :
    Code.read? (squash statements indent).down =
      some ((statements.reverse.flatMap fun s => s.step.down).flatMap SchemaCommand.calls) := by
  have named : ∀ s ∈ statements.reverse, s ≠ .drop ⟨[]⟩ := by
    rintro _ member rfl
    exact reversible _ (List.mem_reverse.mp member)
  rw [squash_down statements indent]
  refine read?_joinBlocks indent _ (fun s member => (Statement.step_ne_nil (named s member)).2)
    (fun s member => s.isStatement_down (reversible s (List.mem_reverse.mp member))) ?_
  intro s _ command listed
  simp [s.defaults_down command listed]

end Migration

end TableShift
