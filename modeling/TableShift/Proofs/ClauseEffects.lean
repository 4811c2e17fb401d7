import TableShift.Schema.Step

/-! # What a clause can contribute

Each kind of clause has one shape of effect: the commands that carry it out, the
command that takes them back or remarks on them, and the table's name afterwards.
Facts about the effects of clauses are derived from these shapes, not from the
functions that make them.
-/

namespace TableShift

/-- The kind of key that a kind of clause adds, foreign keys aside. -/
def AlterKind.addedKey? : AlterKind → Option KeyKind
  | addIndex => some .index
  | addUnique => some .unique
  | addFullText => some .fullText
  | _ => none

/-- The method of a kind of clause that takes something away. -/
def AlterKind.droppedBy? : AlterKind → Option NameMethod
  | dropColumn => some .dropColumn
  | dropIndex => some .dropIndex
  | dropForeignKey => some .dropForeign
  | _ => none

namespace AlterOperation

/-- The effects that a clause of a kind can have on the table of a name. -/
inductive Contributes (table : String) : AlterKind → ClauseEffect → Prop where
  | addColumn (declaration : Declaration) (declared : declaration.method ∈ columnMethods)
      (options : List ColumnOption) :
      Contributes table .addColumn
        ⟨[.column declaration (modifierCalls options) false],
          .drop .dropColumn (.name declaration.column), table⟩
  | changeColumn (declaration : Declaration) (declared : declaration.method ∈ columnMethods)
      (options : List ColumnOption) (newName : String) :
      Contributes table .changeColumn
        ⟨.column declaration (modifierCalls options) true ::
            (if newName = declaration.column then []
              else [.renameColumn declaration.column newName]),
          .remark AlterKind.changeColumn.label declaration.column, table⟩
  | addKey {kind : AlterKind} {key : KeyKind} {method : NameMethod}
      (adds : kind.addedKey? = some key) (drops : key.dropMethod? = some method)
      (columns : List String) (listed : columns ≠ []) (name : Option String) :
      Contributes table kind
        ⟨[.key key columns name], .drop method (dropTarget name columns), table⟩
  | addConstraint (columns : List String) (listed : columns ≠ []) (name : Option String)
      (target : Option References) :
      Contributes table .addConstraint
        ⟨[.foreign columns name target], .drop .dropForeign (dropTarget name columns), table⟩
  | drop {kind : AlterKind} {method : NameMethod} (drops : kind.droppedBy? = some method)
      (name : String) :
      Contributes table kind ⟨[.drop method (.name name)], .remark kind.label name, table⟩
  | renameTable (newName : String) :
      Contributes table .renameTable ⟨[.rename newName], .rename table, newName⟩
  | renameColumn (old new : String) :
      Contributes table .renameColumn ⟨[.renameColumn old new], .renameColumn new old, table⟩
  | renameIndex (old new : String) :
      Contributes table .renameIndex ⟨[.renameIndex old new], .renameIndex new old, table⟩

end AlterOperation

theorem Declaration.column_of? {typeName column : String} {parameters : List String}
    {declaration : Declaration} (h : of? typeName column parameters = some declaration) :
    declaration.column = column ∧ declaration.method ∈ columnMethods := by
  unfold of? at h
  cases found : ColumnMethod.find? typeName with
  | none => simp [found] at h
  | some method =>
      simp only [found, Option.some.injEq] at h
      rw [← h]
      exact ⟨rfl, List.mem_of_find?_eq_some found⟩

namespace AlterOperation

variable {operation : AlterOperation} {table : String} {tokens : List Token}
  {effect : ClauseEffect}

theorem exists_of_columnEffect? {change : Bool}
    (h : operation.columnEffect? table tokens change = some effect) :
    ∃ (declaration : Declaration) (options : List ColumnOption) (newName : String),
      declaration.method ∈ columnMethods ∧
      effect = if change then
          ⟨.column declaration (modifierCalls options) true ::
              (if newName = declaration.column then []
                else [.renameColumn declaration.column newName]),
            .remark AlterKind.changeColumn.label declaration.column, table⟩
        else
          ⟨[.column declaration (modifierCalls options) false],
            .drop .dropColumn (.name declaration.column), table⟩ := by
  unfold columnEffect? at h
  split at h
  · rename_i newName rest
    simp only at h
    split at h
    · simp at h
    · rename_i declaration declared
      obtain ⟨typeName, _, hof⟩ := Option.bind_eq_some_iff.mp declared
      obtain ⟨column, method⟩ := Declaration.column_of? hof
      rw [← column] at h
      refine ⟨declaration, (ColumnClause.scan rest).options, newName, method, ?_⟩
      cases change with
      | false => simpa using h.symm
      | true => simpa using h.symm
  · simp at h

theorem eq_of_keyEffect? {kind : KeyKind} {method : NameMethod}
    (h : operation.keyEffect? table tokens kind method = some effect) :
    parameterTexts tokens ≠ [] ∧
      effect = ⟨[.key kind (parameterTexts tokens) (operation.target? tokens)],
        .drop method (dropTarget (operation.target? tokens) (parameterTexts tokens)), table⟩ := by
  unfold keyEffect? at h
  simp only at h
  split at h
  · simp at h
  · rename_i listed
    exact ⟨by simpa using listed, by simpa using h.symm⟩

theorem exists_of_constraintEffect? (h : operation.constraintEffect? table tokens = some effect) :
    ∃ columns, columns ≠ [] ∧
      effect = ⟨[.foreign columns operation.field (referencesOf? tokens)],
        .drop .dropForeign (dropTarget operation.field columns), table⟩ := by
  unfold constraintEffect? at h
  split at h
  · simp at h
  · rename_i rest _
    simp only at h
    split at h
    · simp at h
    · rename_i listed
      exact ⟨parameterTexts rest, by simpa using listed, by simpa using h.symm⟩

theorem exists_of_dropEffect? {kind : AlterKind} {method : NameMethod}
    (h : operation.dropEffect? table tokens kind method = some effect) :
    ∃ name, effect = ⟨[.drop method (.name name)], .remark kind.label name, table⟩ := by
  obtain ⟨name, _, rfl⟩ := Option.map_eq_some_iff.mp h
  exact ⟨name, rfl⟩

theorem exists_of_renameTableEffect?
    (h : operation.renameTableEffect? table tokens = some effect) :
    ∃ newName, effect = ⟨[.rename newName], .rename table, newName⟩ := by
  obtain ⟨newName, _, rfl⟩ := Option.map_eq_some_iff.mp h
  exact ⟨newName, rfl⟩

theorem exists_of_renameEffect? {command : String → String → TableCommand}
    (h : operation.renameEffect? table tokens command = some effect) :
    ∃ old new, effect = ⟨[command old new], command new old, table⟩ := by
  unfold renameEffect? at h
  split at h
  · simp at h
  · rename_i old _
    split at h
    · simp at h
    · rename_i new _
      exact ⟨old, new, by simpa using h.symm⟩

/-- Whatever a clause contributes has the shape of its kind. -/
theorem contributes_of_effect? (h : operation.effect? table = some effect) :
    ∃ kind tokens, AlterKind.classify? operation.options operation.tokens = some (kind, tokens) ∧
      Contributes table kind effect := by
  unfold effect? at h
  split at h
  · simp at h
  · rename_i kind tokens classified
    refine ⟨kind, tokens, classified, ?_⟩
    cases kind with
    | addColumn =>
        obtain ⟨declaration, options, _, declared, rfl⟩ := exists_of_columnEffect? h
        exact .addColumn declaration declared options
    | changeColumn =>
        obtain ⟨declaration, options, newName, declared, rfl⟩ := exists_of_columnEffect? h
        exact .changeColumn declaration declared options newName
    | addIndex | addUnique | addFullText =>
        obtain ⟨listed, rfl⟩ := eq_of_keyEffect? h
        exact .addKey rfl rfl _ listed _
    | addConstraint =>
        obtain ⟨columns, listed, rfl⟩ := exists_of_constraintEffect? h
        exact .addConstraint columns listed _ _
    | dropColumn | dropIndex | dropForeignKey =>
        obtain ⟨name, rfl⟩ := exists_of_dropEffect? h
        exact .drop rfl name
    | renameTable =>
        obtain ⟨newName, rfl⟩ := exists_of_renameTableEffect? h
        exact .renameTable newName
    | renameColumn =>
        obtain ⟨old, new, rfl⟩ := exists_of_renameEffect? h
        exact .renameColumn old new
    | renameIndex =>
        obtain ⟨old, new, rfl⟩ := exists_of_renameEffect? h
        exact .renameIndex old new

end AlterOperation

end TableShift
