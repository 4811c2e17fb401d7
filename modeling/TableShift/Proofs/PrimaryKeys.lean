import TableShift.Proofs.ColumnAgreement
import TableShift.Proofs.FieldCommands
import TableShift.Sql.Script

/-! # Primary keys of a new table

A primary key on one column is left out where that column counts up automatically, because
the call for this makes it the primary key. The options of the fields decide whether the key
is left out, their types decide which columns are declared. So the key is lost exactly if no
field that counts the column up has a type with a declaration.
-/

namespace TableShift

/-! ## Calls that count up -/

/-- The chained call that makes a column count up. -/
def autoIncrementCode : String := "->autoIncrement()"

def autoIncrementCall : ModifierCall where
  modifier := ⟨"AUTO_INCREMENT", "autoIncrement", .none⟩
  argument := ""

theorem autoIncrementCall_mem_iff (options : List ColumnOption) :
    autoIncrementCall ∈ modifierCalls options ↔
      options.any (·.name == "AUTO_INCREMENT") = true := by
  constructor
  · intro made
    rw [modifierCalls, List.mem_append] at made
    cases made with
    | inl present =>
        obtain ⟨modifier, _, made⟩ := List.mem_filterMap.mp present
        obtain ⟨option, found, called⟩ := Option.bind_eq_some_iff.mp made
        obtain rfl := modifier_of_call? called
        have named := List.find?_some (p := fun o : ColumnOption => o.name == "AUTO_INCREMENT") found
        exact List.any_eq_true.mpr ⟨option, List.mem_of_find?_eq_some found, named⟩
    | inr absent =>
        obtain ⟨modifier, listed, called⟩ := List.mem_filterMap.mp absent
        obtain rfl := modifier_of_call? called
        exact absurd (List.mem_filter.mp listed).1 (by simp [autoIncrementCall, absentModifiers])
  · intro given
    obtain ⟨option, found⟩ := Option.isSome_iff_exists.mp
      ((List.find?_isSome (p := fun o : ColumnOption => o.name == "AUTO_INCREMENT")).mpr
        (List.any_eq_true.mp given))
    refine List.mem_append_left _ (List.mem_filterMap.mpr ⟨autoIncrementCall.modifier, ?_, ?_⟩)
    · simp [presentModifiers, autoIncrementCall]
    · simp [autoIncrementCall, found, Modifier.call?]

theorem exists_autoIncrement_iff (options : List ColumnOption) :
    (∃ call ∈ modifierCalls options, call.code = autoIncrementCode) ↔
      options.any (·.name == "AUTO_INCREMENT") = true := by
  rw [← autoIncrementCall_mem_iff]
  have code : autoIncrementCall.code = autoIncrementCode := by decide
  constructor
  · rintro ⟨call, made, same⟩
    have listed : autoIncrementCall.modifier ∈ presentModifiers ++ absentModifiers := by
      simp [presentModifiers, autoIncrementCall]
    obtain rfl := ModifierCall.code_injective (modifier_of_mem made) listed (same.trans code.symm)
    exact made
  · intro made
    exact ⟨autoIncrementCall, made, code⟩

/-! ## What a field declares -/

namespace Field

variable {field : Field}

/-- Whether a field is a column of a type with a declaration. -/
def isDeclared (field : Field) : Bool :=
  match field.type with
  | some type => ColumnMethod.isKnown type.name
  | none => false

theorem exists_columnCommand? {column : String} (named : field.name = some column)
    (declared : field.isDeclared = true) :
    ∃ declaration : Declaration, declaration.column = column ∧
      field.columnCommand? = some (.column declaration (modifierCalls field.mergedOptions) false) := by
  unfold isDeclared at declared
  split at declared
  · rename_i type typed
    obtain ⟨method, found⟩ := Option.isSome_iff_exists.mp declared
    obtain ⟨declaration, made⟩ :
        ∃ declaration, Declaration.of? type.name column type.parameters = some declaration := by
      simp [Declaration.of?, found]
    refine ⟨declaration, (Declaration.column_of? made).1, ?_⟩
    simp [columnCommand?, typed, named, made]
  · simp at declared

end Field

namespace CreateTable

variable {statement : CreateTable}

theorem primary_not_mem_body {columns : List String} {column : String}
    (counted : column ∈ statement.autoIncrement) (single : columns = [column]) :
    TableCommand.key .primary columns none ∉ statement.body := by
  intro member
  obtain ⟨field, _, command | ⟨key, _, command⟩⟩ := mem_body_iff.mp member
  · obtain ⟨_, _, _, _, _, other⟩ := Field.columnCommand?_eq_some_iff.mp command
    simp at other
  · obtain other | ⟨_, same, -, several⟩ := Field.exists_of_keyCommand? command
    · simp at other
    · obtain ⟨kind, named, -⟩ := TableCommand.key.inj same
      exact several kind.symm column counted (named.symm.trans single)

/-- A column that is declared with the call that counts it up has the option for it. -/
theorem exists_field_of_column_mem_body {declaration : Declaration}
    {modifiers : List ModifierCall} (member : .column declaration modifiers false ∈ statement.body)
    (counts : ∃ call ∈ modifiers, call.code = autoIncrementCode) :
    ∃ field ∈ statement.fields, field.name = some declaration.column ∧
      field.hasOption "AUTO_INCREMENT" = true ∧ field.isDeclared = true := by
  obtain ⟨field, inside, command | ⟨key, _, command⟩⟩ := mem_body_iff.mp member
  · obtain ⟨type, made, typed, named, declared, same⟩ :=
      Field.columnCommand?_eq_some_iff.mp command
    obtain ⟨rfl, rfl, -⟩ := TableCommand.column.inj same
    refine ⟨field, inside, named, (exists_autoIncrement_iff _).mp counts, ?_⟩
    cases known : ColumnMethod.find? type.name with
    | none => simp [Declaration.of?, known] at declared
    | some method => simp [Field.isDeclared, typed, ColumnMethod.isKnown, known]
  · obtain other | ⟨_, other, _⟩ := Field.exists_of_keyCommand? command <;> simp at other

/-! ## Keys that are kept -/

/-- A command is carried out by the block that creates the table, where its lines stand one
    below the other. -/
structure Writes (statement : CreateTable) (command : TableCommand) : Prop where
  listed : command ∈ statement.body
  placed : Line.deeper 1 command.lines <:+: statement.step.up.flatMap SchemaCommand.lines

theorem writes_of_mem {command : TableCommand} (h : command ∈ statement.body) :
    statement.Writes command where
  listed := h
  placed := by
    have inside : command.lines <:+: statement.body.flatMap TableCommand.lines := by
      rw [List.flatMap_def]
      exact List.infix_of_mem_flatten (List.mem_map_of_mem h)
    have block : statement.step.up.flatMap SchemaCommand.lines =
        SchemaCommand.blockLines "create" statement.table statement.body :=
      List.append_nil _
    rw [block, SchemaCommand.blockLines]
    exact ((inside.map _).trans (List.infix_append' [_] _ [_]) :)

/-- The block declares a key as the primary one, or its only column with the call that makes
    the column the primary key. -/
def KeepsPrimary (statement : CreateTable) (columns : List String) : Prop :=
  statement.Writes (.key .primary columns none) ∨
    ∃ (declaration : Declaration) (modifiers : List ModifierCall),
      columns = [declaration.column] ∧ (∃ call ∈ modifiers, call.code = autoIncrementCode) ∧
        statement.Writes (.column declaration modifiers false)

/-- A primary key is kept exactly if, where its only column counts up, a field declares this
    column and counts it up. -/
theorem keepsPrimary_iff {field : Field} {key : Key} (member : field ∈ statement.fields)
    (declares : field.key = some key) (primary : key.kind = .primary) :
    statement.KeepsPrimary key.columnNames ↔
      ∀ column ∈ statement.autoIncrement, key.columnNames = [column] →
        ∃ f ∈ statement.fields, f.name = some column ∧ f.hasOption "AUTO_INCREMENT" = true ∧
          f.isDeclared = true := by
  constructor
  · intro kept column counted single
    cases kept with
    | inl written =>
        exact absurd written.listed (primary_not_mem_body counted single)
    | inr written =>
        obtain ⟨declaration, modifiers, same, counts, written⟩ := written
        obtain rfl : column = declaration.column := by simpa [single] using same
        exact exists_field_of_column_mem_body written.listed counts
  · intro covered
    by_cases counted : ∃ column ∈ statement.autoIncrement, key.columnNames = [column]
    · obtain ⟨column, counted, single⟩ := counted
      obtain ⟨f, inside, named, counts, declared⟩ := covered column counted single
      obtain ⟨declaration, rfl, command⟩ := Field.exists_columnCommand? named declared
      refine .inr ⟨declaration, _, single, (exists_autoIncrement_iff _).mpr counts, ?_⟩
      exact writes_of_mem (mem_body_iff.mpr ⟨f, inside, .inl command⟩)
    · refine .inl (writes_of_mem (mem_body_iff.mpr ⟨field, member, .inr ⟨key, declares, ?_⟩⟩))
      rw [Field.keyCommand?_primary primary, if_neg counted]

/-- The entry `PRIMARY KEY (id)`. -/
def primaryId : Field where
  key := some { kind := .primary, columns := [⟨"id", none⟩] }

/-- A table with a counted column of this type, which is the primary key. -/
def countedId (type : String) : CreateTable where
  table := "t"
  fields :=
    [{ name := some "id", type := some { name := type }, options := [.flag "AUTO_INCREMENT"] },
      primaryId]

theorem keepsPrimary_countedInt :
    Script.parse "CREATE TABLE t (id INT AUTO_INCREMENT, PRIMARY KEY (id))" =
      .ok [.create (countedId "INT")] ∧
    (countedId "INT").KeepsPrimary ["id"] := by
  refine ⟨by decide +kernel, ?_⟩
  refine (@keepsPrimary_iff (countedId "INT") primaryId ⟨.primary, none, [⟨"id", none⟩], none⟩
    (by simp [countedId]) rfl rfl).mpr ?_
  intro column counted _
  obtain rfl : column = "id" := List.mem_singleton.mp counted
  exact ⟨_, List.mem_cons_self, rfl, by decide, by decide⟩

/-- A column of a type without a declaration takes the key on it away. -/
theorem keepsPrimary_countedInt8 :
    Script.parse "CREATE TABLE t (id INT8 AUTO_INCREMENT, PRIMARY KEY (id))" =
      .ok [.create (countedId "INT8")] ∧
    (Migration.each [.create (countedId "INT8")] 0).map Migration.up =
      ["Schema::create('t', function (Blueprint $table) \x7b\n\x7d);"] ∧
    ¬ (countedId "INT8").KeepsPrimary ["id"] := by
  have nothing : (countedId "INT8").body = [] := by decide +kernel
  refine ⟨by decide +kernel, by decide +kernel, ?_⟩
  rintro (written | ⟨_, _, _, _, written⟩)
  · simpa [nothing] using written.listed
  · simpa [nothing] using written.listed

end CreateTable

end TableShift
