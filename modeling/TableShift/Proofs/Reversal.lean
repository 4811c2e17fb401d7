import TableShift.Proofs.ReadMigrations
import TableShift.Sql.Script

/-! # Taking statements back

What the up code of creations, additions and renames does is taken back by their down code:
wherever the acts read off the one apply, those read off the other apply to the result and
restore the database. The blocks of an alteration carry the table's name from act to act, so
a clause is taken back under the name it left behind. A default that is written as it stands
can hold code of its own, which nothing takes back.
-/

namespace TableShift

/-- One partial change takes another back, wherever the other applies. -/
def Undoes {α : Type} (undo change : α → Option α) : Prop :=
  ∀ a a', change a = some a' → undo a' = some a

/-! ## Names, tables and blocks -/

section Names

variable {α : Type} [DecidableEq α]

theorem undoes_removePresent (a : α) : Undoes (removePresent a) (addFresh a) := by
  intro s s' added
  unfold addFresh at added
  split at added
  · simp at added
  · rename_i fresh
    simp only [Option.some.injEq] at added
    subst s'
    simp [removePresent, Finset.erase_insert fresh]

theorem undoes_renamePresent (old new : α) :
    Undoes (renamePresent new old) (renamePresent old new) := by
  intro s s' renamed
  unfold renamePresent at renamed
  split at renamed
  · rename_i names
    obtain ⟨present, fresh⟩ := names
    have different : old ≠ new := fun same => fresh (same ▸ present)
    have absent : new ∉ s.erase old := fun inside => fresh (Finset.mem_of_mem_erase inside)
    simp only [Option.some.injEq] at renamed
    subst s'
    simp [renamePresent, different, Finset.erase_insert absent, Finset.insert_erase present]
  · simp at renamed

end Names

namespace TableState

theorem undoes_inColumns {undo change : Finset String → Option (Finset String)}
    (h : Undoes undo change) : Undoes (inColumns undo) (inColumns change) := by
  intro t t' changed
  obtain ⟨columns, found, rfl⟩ := Option.map_eq_some_iff.mp changed
  simp [inColumns, h _ _ found]

theorem undoes_inIndexes {undo change : Finset KeyId → Option (Finset KeyId)}
    (h : Undoes undo change) : Undoes (inIndexes undo) (inIndexes change) := by
  intro t t' changed
  obtain ⟨indexes, found, rfl⟩ := Option.map_eq_some_iff.mp changed
  simp [inIndexes, h _ _ found]

theorem undoes_inForeignKeys {undo change : Finset KeyId → Option (Finset KeyId)}
    (h : Undoes undo change) : Undoes (inForeignKeys undo) (inForeignKeys change) := by
  intro t t' changed
  obtain ⟨foreignKeys, found, rfl⟩ := Option.map_eq_some_iff.mp changed
  simp [inForeignKeys, h _ _ found]

theorem undoes_inKeys (kind : KeyKind) {undo change : Finset KeyId → Option (Finset KeyId)}
    (h : Undoes undo change) : Undoes (inKeys kind undo) (inKeys kind change) := by
  cases kind with
  | foreign => exact undoes_inForeignKeys h
  | primary | index | unique | fullText => exact undoes_inIndexes h

end TableState

namespace Block

theorem onTable_eq_some {change : TableState → Option TableState} {b b' : Block}
    (h : b.onTable change = some b') :
    ∃ t t', b.database b.table = some t ∧ change t = some t' ∧
      b' = ⟨b.table, Function.update b.database b.table (some t')⟩ := by
  obtain ⟨t', changed, rfl⟩ := Option.map_eq_some_iff.mp h
  obtain ⟨t, found, hchange⟩ := Option.bind_eq_some_iff.mp changed
  exact ⟨t, t', found, hchange, rfl⟩

theorem undoes_onTable {undo change : TableState → Option TableState} (h : Undoes undo change) :
    Undoes (onTable undo) (onTable change) := by
  intro b b' changed
  obtain ⟨t, t', found, hchange, rfl⟩ := onTable_eq_some changed
  have restored : Function.update b.database b.table (some t) = b.database := by
    rw [← found, Function.update_eq_self]
  simp [onTable, h _ _ hchange, restored]

theorem rename_eq_some {new : String} {b b' : Block} (h : b.rename new = some b') :
    ∃ t, b.database b.table = some t ∧ b.database new = none ∧
      b' = ⟨new, Function.update (Function.update b.database b.table none) new (some t)⟩ := by
  unfold rename at h
  split at h
  · rename_i t found free
    exact ⟨t, found, free, by simpa using h.symm⟩
  · simp at h

theorem rename_back {new : String} {b b' : Block} (h : b.rename new = some b') :
    b'.rename b.table = some b := by
  obtain ⟨t, found, free, rfl⟩ := rename_eq_some h
  have different : b.table ≠ new := by
    intro same
    rw [same, free] at found
    simp at found
  have cleared : Function.update (Function.update (Function.update b.database b.table none)
      new (some t)) new none = Function.update b.database b.table none := by
    rw [Function.update_idem, Function.update_comm different, ← free, Function.update_eq_self]
  have restored : Function.update b.database b.table (some t) = b.database := by
    rw [← found, Function.update_eq_self]
  simp [rename, different, cleared, restored]

end Block

namespace TableAct

theorem apply_of_ne_rename {act : TableAct} (h : ∀ new, act ≠ .rename new) :
    act.apply = Block.onTable act.change := by
  cases act with
  | rename new => exact absurd rfl (h new)
  | addColumn | changeColumn | addKey | dropColumns | dropKey | renameColumn | renameIndex => rfl

theorem present_of_apply {act : TableAct} {b b' : Block}
    (h : act.apply b = some b') : ∃ t, b'.database b'.table = some t := by
  by_cases renames : ∃ new, act = .rename new
  · obtain ⟨new, rfl⟩ := renames
    obtain ⟨t, _, _, rfl⟩ := Block.rename_eq_some h
    exact ⟨t, by simp⟩
  · rw [apply_of_ne_rename (fun new same => renames ⟨new, same⟩)] at h
    obtain ⟨_, t, _, _, rfl⟩ := Block.onTable_eq_some h
    exact ⟨t, by simp⟩

end TableAct

namespace Block

theorem present_of_run {acts : List TableAct} {b b' : Block} {t : TableState}
    (found : b.database b.table = some t) (ran : b.run acts = some b') :
    ∃ t', b'.database b'.table = some t' := by
  induction acts generalizing b t with
  | nil =>
      simp only [run_nil, Option.some.injEq] at ran
      exact ⟨t, ran ▸ found⟩
  | cons act acts ih =>
      rw [run_cons] at ran
      obtain ⟨middle, applied, rest⟩ := Option.bind_eq_some_iff.mp ran
      obtain ⟨t', found'⟩ := TableAct.present_of_apply applied
      exact ih found' rest

/-- Acts that rename nothing leave every other table as it was. -/
theorem frame_of_run {acts : List TableAct} {b b' : Block}
    (plain : ∀ act ∈ acts, ∀ new, act ≠ .rename new)
    (ran : b.run acts = some b') :
    b'.table = b.table ∧ ∀ entry, Function.update b'.database b.table entry =
      Function.update b.database b.table entry := by
  induction acts generalizing b with
  | nil =>
      simp only [run_nil, Option.some.injEq] at ran
      subst b'
      exact ⟨rfl, fun _ => rfl⟩
  | cons act acts ih =>
      rw [run_cons] at ran
      obtain ⟨middle, applied, rest⟩ := Option.bind_eq_some_iff.mp ran
      rw [TableAct.apply_of_ne_rename (plain act (List.mem_cons_self ..))] at applied
      obtain ⟨t, t', _, _, rfl⟩ := onTable_eq_some applied
      obtain ⟨same, others⟩ :=
        ih (fun c member => plain c (List.mem_cons_of_mem _ member)) rest
      refine ⟨same, fun entry => ?_⟩
      rw [others entry, Function.update_idem]

end Block

/-! ## Clauses -/

/-- An effect is taken back by its down command, in any block on the table of the given
    name, and leaves the table under the name it says. -/
def ClauseEffect.TakenBack (table : String) (effect : ClauseEffect) : Prop :=
  ∀ b b' : Block, b.table = table → b.run (effect.up.flatMap TableCommand.acts) = some b' →
    b'.table = effect.table ∧ b'.run effect.down.acts = some b

namespace ClauseEffect

theorem takenBack_of_undoes {table : String} {up down : TableCommand} {act back : TableAct}
    {change undo : TableState → Option TableState}
    (hup : up.acts = [act]) (hact : act.apply = Block.onTable change)
    (hdown : down.acts = [back]) (hback : back.apply = Block.onTable undo)
    (h : Undoes undo change) : TakenBack table ⟨[up], down, table⟩ := by
  intro b b' same ran
  have applied : b.onTable change = some b' := by simpa [hup, hact] using ran
  constructor
  · obtain ⟨_, _, _, _, rfl⟩ := Block.onTable_eq_some applied
    exact same
  · have undone := Block.undoes_onTable h b b' applied
    simpa [hdown, hback] using undone

end ClauseEffect

theorem writtenNames_of_ne_nil {names : List String} (listed : names ≠ []) :
    writtenNames names = names := by
  cases names with
  | nil => exact absurd rfl listed
  | cons => rfl

theorem NameMethod.acts_of_dropMethod? {kind : KeyKind} {method : NameMethod}
    (h : kind.dropMethod? = some method) (target : DropTarget) :
    method.acts target = [.dropKey kind (target.keyId kind)] := by
  cases kind with
  | primary => simp [KeyKind.dropMethod?] at h
  | index | unique | fullText | foreign =>
      simp only [KeyKind.dropMethod?, Option.some.injEq] at h
      subst method
      rfl

theorem AlterOperation.keyId_dropTarget (kind : KeyKind) (name : Option String)
    (columns : List String) :
    (dropTarget name columns).keyId kind = KeyId.ofName kind columns name := by
  cases name <;> rfl

theorem ClauseEffect.takenBack_key {table : String} {kind : KeyKind} {columns : List String}
    {name : Option String} {up down : TableCommand}
    (hup : up.acts = [.addKey kind (.ofName kind columns name)])
    (hdown : down.acts = [.dropKey kind (.ofName kind columns name)]) :
    TakenBack table ⟨[up], down, table⟩ :=
  takenBack_of_undoes hup rfl hdown rfl (TableState.undoes_inKeys kind (undoes_removePresent _))

/-- What a clause of a reversible kind contributes is taken back. -/
theorem AlterOperation.takenBack_of_contributes {table : String} {kind : AlterKind}
    {effect : ClauseEffect} (h : Contributes table kind effect) (reversible : kind.isReversible) :
    effect.TakenBack table := by
  cases h with
  | addColumn declaration declared options =>
      have drops : (TableAct.dropColumns [declaration.column]).change =
          TableState.inColumns (removePresent declaration.column) := by
        funext t
        simp [TableAct.change]
      have adds : (TableCommand.column declaration (modifierCalls options) false).acts =
          [.addColumn declaration.column] := rfl
      exact ClauseEffect.takenBack_of_undoes adds rfl rfl (congrArg Block.onTable drops)
        (TableState.undoes_inColumns (undoes_removePresent _))
  | changeColumn => simp [AlterKind.isReversible] at reversible
  | @addKey _ key method adds drops columns listed name =>
      have hup : (TableCommand.key key columns name).acts =
          [.addKey key (.ofName key columns name)] := by
        rw [TableCommand.acts, writtenNames_of_ne_nil listed]
      have hdown : (TableCommand.drop method (dropTarget name columns)).acts =
          [.dropKey key (.ofName key columns name)] := by
        rw [TableCommand.acts, NameMethod.acts_of_dropMethod? drops, keyId_dropTarget]
      exact ClauseEffect.takenBack_key hup hdown
  | addConstraint columns listed name target =>
      have hup : (TableCommand.foreign columns name target).acts =
          [.addKey .foreign (.ofName .foreign columns name)] := by
        rw [TableCommand.acts, writtenNames_of_ne_nil listed]
      have hdown : (TableCommand.drop .dropForeign (dropTarget name columns)).acts =
          [.dropKey .foreign (.ofName .foreign columns name)] := by
        rw [← keyId_dropTarget]
        rfl
      exact ClauseEffect.takenBack_key hup hdown
  | drop drops name =>
      cases kind <;> simp [AlterKind.isReversible, AlterKind.droppedBy?] at reversible drops
  | renameTable newName =>
      intro b b' same ran
      have renamed : b.rename newName = some b' := by
        simpa [TableCommand.acts, TableAct.apply_rename] using ran
      refine ⟨?_, ?_⟩
      · obtain ⟨_, _, _, rfl⟩ := Block.rename_eq_some renamed
        rfl
      · have back := Block.rename_back renamed
        rw [same] at back
        simpa [TableCommand.acts, TableAct.apply_rename] using back
  | renameColumn old new =>
      exact ClauseEffect.takenBack_of_undoes rfl rfl rfl rfl
        (TableState.undoes_inColumns (undoes_renamePresent old new))
  | renameIndex old new =>
      exact ClauseEffect.takenBack_of_undoes rfl rfl rfl rfl
        (TableState.undoes_inIndexes (undoes_renamePresent _ _))

theorem TableAct.tableAfter_append (table : String) (first second : List TableAct) :
    tableAfter table (first ++ second) = tableAfter (tableAfter table first) second := by
  induction first generalizing table with
  | nil => rfl
  | cons act first ih => cases act <;> exact ih _

theorem AlterOperation.tableAfter_of_contributes {table : String} {kind : AlterKind}
    {effect : ClauseEffect} (h : Contributes table kind effect) :
    TableAct.tableAfter table (effect.up.flatMap TableCommand.acts) = effect.table := by
  cases h with
  | changeColumn declaration declared options newName =>
      by_cases same : newName = declaration.column
      · simp [same, TableCommand.acts, TableAct.tableAfter]
      · simp [same, TableCommand.acts, TableAct.tableAfter]
  | @drop kind method drops name =>
      cases method <;> rfl
  | addColumn | addKey | addConstraint | renameTable | renameColumn | renameIndex => rfl

/-! ## Alterations -/

namespace AlterTable

theorem finalTable_cons (table : String) (effect : ClauseEffect) (rest : List ClauseEffect) :
    finalTable table (effect :: rest) = finalTable effect.table rest := by
  cases rest with
  | nil => rfl
  | cons next rest => simp [finalTable, List.getLast?_eq_some_getLast]

/-- What the clauses of an alteration do in a block is taken back in reverse order from
    the table's last name. -/
theorem run_effects_back (operations : List AlterOperation)
    (reversible : ∀ operation ∈ operations,
      (AlterKind.classify? operation.options operation.tokens).all fun found =>
        found.1.isReversible) :
    ∀ (b b' : Block),
      b.run (((effects b.table operations).flatMap ClauseEffect.up).flatMap TableCommand.acts) =
        some b' →
      b'.table = finalTable b.table (effects b.table operations) ∧
        b'.run (((effects b.table operations).map ClauseEffect.down).reverse.flatMap
          TableCommand.acts) = some b := by
  induction operations with
  | nil =>
      intro b b' ran
      simp only [effects, List.flatMap_nil, Block.run_nil, Option.some.injEq] at ran
      subst b'
      exact ⟨rfl, rfl⟩
  | cons operation operations ih =>
      intro b b' ran
      have later := ih fun op member => reversible op (List.mem_cons_of_mem _ member)
      cases found : operation.effect? b.table with
      | none =>
          simp only [effects, found] at ran ⊢
          exact later b b' ran
      | some effect =>
          simp only [effects, found, List.flatMap_cons, List.flatMap_append, Block.run_append]
            at ran
          obtain ⟨middle, first, rest⟩ := Option.bind_eq_some_iff.mp ran
          obtain ⟨kind, tokens, classified, shape⟩ := AlterOperation.contributes_of_effect? found
          have undoable : kind.isReversible := by
            simpa [classified] using reversible operation (List.mem_cons_self ..)
          have back := AlterOperation.takenBack_of_contributes shape undoable
          obtain ⟨moved, undone⟩ := back b middle rfl first
          rw [← moved] at rest
          obtain ⟨last, restored⟩ := later middle b' rest
          simp only [effects, found, finalTable_cons, List.map_cons, List.reverse_cons,
            List.flatMap_append, List.flatMap_singleton, Block.run_append, ← moved]
          refine ⟨last, ?_⟩
          simp [restored, undone]

theorem finalTable_eq_tableAfter (table : String) (operations : List AlterOperation) :
    finalTable table (effects table operations) =
      TableAct.tableAfter table
        (((effects table operations).flatMap ClauseEffect.up).flatMap TableCommand.acts) := by
  induction operations generalizing table with
  | nil => rfl
  | cons operation operations ih =>
      cases found : operation.effect? table with
      | none =>
          simp only [effects, found]
          exact ih table
      | some effect =>
          obtain ⟨kind, tokens, _, shape⟩ := AlterOperation.contributes_of_effect? found
          simp only [effects, found, finalTable_cons, List.flatMap_cons, List.flatMap_append,
            TableAct.tableAfter_append, AlterOperation.tableAfter_of_contributes shape]
          exact ih effect.table

end AlterTable

/-! ## Statements -/

namespace Statement

/-- What the up code of a statement does to a database. -/
def upActs (statement : Statement) : List SchemaAct :=
  statement.step.up.flatMap SchemaCommand.acts

/-- What the down code of a statement does to a database. -/
def downActs (statement : Statement) : List SchemaAct :=
  statement.step.down.flatMap SchemaCommand.acts

/-- An alteration is one block, which is taken back on the name that its own renames leave the
    table with. -/
theorem acts_alter (statement : AlterTable) : ∃ up down,
    (alter statement).upActs = [.alter statement.table up] ∧
      (alter statement).downActs = [.alter (TableAct.tableAfter statement.table up) down] := by
  refine ⟨_, ((AlterTable.effects statement.table statement.operations).map
    ClauseEffect.down).reverse.flatMap TableCommand.acts, rfl, ?_⟩
  rw [← AlterTable.finalTable_eq_tableAfter]
  rfl

end Statement

theorem AlterTable.run_acts_back {statement : AlterTable} (reversible : statement.Reversible)
    {db db' : Database} (ran : db.run (Statement.alter statement).upActs = some db') :
    db'.run (Statement.alter statement).downActs = some db := by
  have applied : (SchemaAct.alter statement.table
      (((effects statement.table statement.operations).flatMap ClauseEffect.up).flatMap
        TableCommand.acts)).apply db = some db' := by
    simpa [Statement.upActs, Statement.step, step, SchemaCommand.acts] using ran
  simp only [SchemaAct.apply] at applied
  split at applied
  · obtain ⟨b', blockRan, rfl⟩ := Option.map_eq_some_iff.mp applied
    obtain ⟨last, restored⟩ :=
      run_effects_back statement.operations reversible ⟨statement.table, db⟩ b' blockRan
    obtain ⟨t, present⟩ := Block.present_of_run ‹_› blockRan
    have opens : finalTable statement.table (effects statement.table statement.operations) =
        b'.table := last.symm
    simp [Statement.downActs, Statement.step, step, SchemaCommand.acts, SchemaAct.apply, opens,
      present, restored]
  · simp at applied

/-! ## Creations -/

theorem TableCommand.eq_rename_of_mem_acts {command : TableCommand} {new : String}
    (h : .rename new ∈ command.acts) : command = .rename new := by
  cases command with
  | rename table => simpa [acts, eq_comm] using h
  | column declaration modifiers change => cases change <;> simp [acts] at h
  | drop method target => cases method <;> simp [acts, NameMethod.acts] at h
  | key | «foreign» | renameColumn | renameIndex | remark => simp [acts] at h

namespace CreateTable

theorem ne_rename_of_mem_acts {statement : CreateTable} {act : TableAct}
    (member : act ∈ statement.body.flatMap TableCommand.acts) (new : String) :
    act ≠ .rename new := by
  rintro rfl
  obtain ⟨command, listed, does⟩ := List.mem_flatMap.mp member
  obtain rfl := TableCommand.eq_rename_of_mem_acts does
  obtain ⟨field, _, column | ⟨key, _, declared⟩⟩ := mem_body_iff.mp listed
  · obtain ⟨_, _, _, _, _, other⟩ := Field.columnCommand?_eq_some_iff.mp column
    simp at other
  · obtain other | ⟨_, other, _⟩ := Field.exists_of_keyCommand? declared <;> simp at other

theorem run_acts_back {statement : CreateTable} {db db' : Database}
    (ran : db.run (Statement.create statement).upActs = some db') :
    db'.run (Statement.create statement).downActs = some db := by
  have applied : (SchemaAct.create statement.table
      (statement.body.flatMap TableCommand.acts)).apply db = some db' := by
    simpa [Statement.upActs, Statement.step, step, SchemaCommand.acts] using ran
  simp only [SchemaAct.apply] at applied
  split at applied
  · simp at applied
  · rename_i absent
    obtain ⟨b', blockRan, rfl⟩ := Option.map_eq_some_iff.mp applied
    obtain ⟨_, others⟩ := Block.frame_of_run (fun _ member => ne_rename_of_mem_acts member) blockRan
    have dropped : Function.update b'.database statement.table none = db := by
      rw [others none, Function.update_idem, ← absent, Function.update_eq_self]
    simp [Statement.downActs, Statement.step, step, SchemaCommand.acts, SchemaAct.apply, dropped]

end CreateTable

/-! ## Lists of statements -/

namespace Statement

theorem run_acts_back {statement : Statement} (reversible : statement.Reversible)
    {db db' : Database} (ran : db.run statement.upActs = some db') :
    db'.run statement.downActs = some db := by
  cases statement with
  | create statement => exact CreateTable.run_acts_back ran
  | alter statement => exact AlterTable.run_acts_back reversible ran
  | drop statement => exact reversible.elim

theorem run_all_back {statements : List Statement} (reversible : ∀ s ∈ statements, s.Reversible)
    {db db' : Database} (ran : db.run (statements.flatMap upActs) = some db') :
    db'.run (statements.reverse.flatMap downActs) = some db := by
  induction statements generalizing db with
  | nil =>
      simp only [List.flatMap_nil, Database.run_nil, Option.some.injEq] at ran
      simp [ran]
  | cons statement statements ih =>
      rw [List.flatMap_cons, Database.run_append] at ran
      obtain ⟨middle, first, rest⟩ := Option.bind_eq_some_iff.mp ran
      have later := ih (fun s member => reversible s (List.mem_cons_of_mem _ member)) rest
      have earlier := run_acts_back (reversible statement (List.mem_cons_self ..)) first
      rw [List.reverse_cons, List.flatMap_append, Database.run_append, later]
      simpa using earlier

end Statement

namespace Migration

/-- A squashed migration of creations, additions and renames is undone by its down code. The
    down code can always be read, the up code exactly if all defaults can stand in the
    parentheses of their calls. Read so, the up code does what the statements do in order, and
    the down code what takes them back in reverse order; an alteration is taken back on the name
    that its own renames left the table with. From every database, if the acts of the up code
    apply without conflict, so do those of the down code afterwards, and they restore it. -/
theorem squash_down_undoes_up (statements : List Statement) (indent : Nat)
    (reversible : ∀ s ∈ statements, s.Reversible) :
    (Code.read? (squash statements indent).up =
        some ((statements.flatMap fun s => s.step.up).flatMap SchemaCommand.calls) ↔
      ∀ s ∈ statements, s.Legible) ∧
    ((∀ s ∈ statements, s.Legible) →
      Code.acts? (squash statements indent).up = some (statements.flatMap Statement.upActs)) ∧
    Code.acts? (squash statements indent).down =
      some (statements.reverse.flatMap Statement.downActs) ∧
    (∀ db db' : Database, db.run (statements.flatMap Statement.upActs) = some db' →
      db'.run (statements.reverse.flatMap Statement.downActs) = some db) ∧
    ∀ statement, Statement.alter statement ∈ statements → ∃ up down,
      (Statement.alter statement).upActs = [.alter statement.table up] ∧
        (Statement.alter statement).downActs =
          [.alter (TableAct.tableAfter statement.table up) down] := by
  have named : ∀ s ∈ statements, s ≠ .drop ⟨[]⟩ := by
    rintro _ member rfl
    exact reversible _ member
  have whole := read?_squash_up_iff indent named
  refine ⟨whole, fun legible => ?_, ?_, fun _ _ ran => Statement.run_all_back reversible ran,
    fun statement _ => Statement.acts_alter statement⟩
  · have up := Code.acts?_of_read? (whole.mpr legible)
      (List.forall_mem_flatMap.mpr fun s _ => s.isStatement_up)
    rwa [List.flatMap_assoc] at up
  · have down := Code.acts?_of_read? (read?_squash_down indent reversible)
      (List.forall_mem_flatMap.mpr fun s member =>
        s.isStatement_down (reversible s (List.mem_reverse.mp member)))
    rwa [List.flatMap_assoc] at down

/-- A table is created, then altered: a column is added with a sum as its default, the table
    renamed, a key without a name added to it, and the column renamed below that key. -/
theorem squash_down_undoes_up_people :
    let statements : List Statement := [
      .create ⟨"users", [{ name := some "id", type := some { name := "INT" } }]⟩,
      .alter ⟨"users", [
        ⟨["ADD", "COLUMN"], some "age",
          [.identifier "age", .keyword "INT", .keyword "DEFAULT", .identifier "(1 + 2)"]⟩,
        ⟨["RENAME", "TO"], none, [.identifier "people"]⟩,
        ⟨["ADD"], none, [.keyword "UNIQUE", .punct '(', .identifier "age", .punct ')']⟩,
        ⟨["RENAME", "COLUMN"], some "age", [.keyword "TO", .identifier "years"]⟩]⟩]
    (∀ s ∈ statements, s.Reversible) ∧ (∀ s ∈ statements, s.Legible) ∧
      ∃ up down db, Code.acts? (squash statements 2).up = some up ∧
        Code.acts? (squash statements 2).down = some down ∧
        Database.run (fun _ => none) up = some db ∧ db.run down = some fun _ => none := by
  intro statements
  have reversible : ∀ s ∈ statements, s.Reversible := by decide +kernel
  have legible : ∀ s ∈ statements, s.Legible := by decide +kernel
  have applies : (Database.run (fun _ => none) (statements.flatMap Statement.upActs)).isSome := by
    decide +kernel
  obtain ⟨db, ran⟩ := Option.isSome_iff_exists.mp applies
  obtain ⟨_, up, down, back, _⟩ := squash_down_undoes_up statements 2 reversible
  exact ⟨reversible, legible, _, _, db, up legible, down, ran, back _ db ran⟩

/-- A default that closes its own call and drops a column. The down code takes back the column
    that is added, but not the one that is dropped. -/
theorem squash_down_not_undoes_rawDefault :
    let statements : List Statement := [
      .alter ⟨"t", [
        ⟨["ADD", "COLUMN"], some "a",
          [.identifier "a", .keyword "INT", .keyword "NOT NULL", .keyword "DEFAULT",
            .identifier "x);\n\t$table->dropColumn('b'"]⟩]⟩]
    let up : List SchemaAct := [.alter "t" [.addColumn "a", .dropColumns ["b"]]]
    let down : List SchemaAct := [.alter "t" [.dropColumns ["a"]]]
    let withColumns (columns : Finset String) : Database :=
      fun table => if table = "t" then some { columns } else none
    Script.parse ("ALTER TABLE t ADD COLUMN a INT NOT NULL DEFAULT " ++
          "\x60x);\n\t$table->dropColumn('b'\x60") = .ok statements ∧
      (∀ s ∈ statements, s.Reversible) ∧
      Code.acts? (squash statements 0).up = some up ∧
      Code.acts? (squash statements 0).down = some down ∧
      (withColumns {"b"}).run up = some (withColumns {"a"}) ∧
      (withColumns {"a"}).run down = some (withColumns ∅) ∧ withColumns ∅ ≠ withColumns {"b"} := by
  intro statements up down withColumns
  have changed (before after : Finset String) :
      Function.update (withColumns before) "t" (some { columns := after }) = withColumns after := by
    funext table
    by_cases here : table = "t" <;> simp [withColumns, Function.update, here]
  have present (columns : Finset String) : withColumns columns "t" = some { columns } := rfl
  have dropped : (insert "a" {"b"} : Finset String).erase "b" = {"a"} := by decide
  refine ⟨?_, ?_, ?_, ?_, ?_, ?_, ?_⟩
  · decide +kernel
  · decide +kernel
  · decide +kernel
  · decide +kernel
  · simp +decide [up, SchemaAct.apply, present, TableAct.apply, Block.onTable, TableAct.change,
      TableState.inColumns, addFresh, removePresent, changed, dropped]
  · simp +decide [down, SchemaAct.apply, present, TableAct.apply, Block.onTable, TableAct.change,
      TableState.inColumns, removePresent, changed]
  · intro same
    have tables := congrFun same "t"
    simp [withColumns] at tables

end Migration

end TableShift
