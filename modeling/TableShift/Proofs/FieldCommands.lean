import TableShift.Proofs.ClauseEffects

/-! # The commands of fields

A field of a new table writes at most two commands: its own column with the calls for its own
options, and its key with the columns of the key. A primary key is left out if its only column
counts up.
-/

namespace TableShift

namespace Field

variable {field : Field}

theorem columnCommand?_eq_some_iff {command : TableCommand} :
    field.columnCommand? = some command ↔
      ∃ type declaration, field.type = some type ∧ field.name = some declaration.column ∧
        Declaration.of? type.name declaration.column type.parameters = some declaration ∧
        command = .column declaration (modifierCalls field.mergedOptions) false := by
  unfold columnCommand?
  constructor
  · intro h
    split at h
    · rename_i name type named typed
      obtain ⟨declaration, declared, rfl⟩ := Option.map_eq_some_iff.mp h
      have column := (Declaration.column_of? declared).1
      subst column
      exact ⟨type, declaration, typed, named, declared, rfl⟩
    · simp at h
  · rintro ⟨type, declaration, typed, named, declared, rfl⟩
    simp [typed, named, declared]

theorem keyCommand?_primary {key : Key} (primary : key.kind = .primary)
    (autoIncrement : List String) :
    field.keyCommand? autoIncrement key =
      if ∃ column ∈ autoIncrement, key.columnNames = [column] then none
      else some (.key .primary key.columnNames none) := by
  unfold keyCommand?
  simp only [primary]
  split
  · rename_i column single
    simp [single]
  · rename_i several
    rw [if_neg]
    rintro ⟨column, _, single⟩
    exact several column single

/-- A key is written with its columns and with its name or that of its field. A primary key
    has no name, and is written only if its column does not count up. -/
theorem exists_of_keyCommand? {autoIncrement : List String} {key : Key} {command : TableCommand}
    (h : field.keyCommand? autoIncrement key = some command) :
    command = .foreign key.columnNames (key.name.or field.name) key.references ∨
      ∃ name, command = .key key.kind key.columnNames name ∧
        (name = none ∨ name = key.name.or field.name) ∧
        (key.kind = .primary → ∀ column ∈ autoIncrement, key.columnNames ≠ [column]) := by
  cases kind : key.kind with
  | foreign => exact .inl (by simpa [keyCommand?, kind] using h.symm)
  | primary =>
      rw [keyCommand?_primary kind] at h
      split at h
      · simp at h
      · rename_i several
        exact .inr ⟨none, (Option.some.inj h).symm, .inl rfl,
          fun _ column counted single => several ⟨column, counted, single⟩⟩
  | index | unique | fullText =>
      exact .inr ⟨_, by simpa [keyCommand?, kind] using h.symm, .inr rfl, by simp⟩

end Field

theorem CreateTable.mem_body_iff {statement : CreateTable} {command : TableCommand} :
    command ∈ statement.body ↔
      ∃ field ∈ statement.fields, field.columnCommand? = some command ∨
        ∃ key, field.key = some key ∧
          field.keyCommand? statement.autoIncrement key = some command := by
  simp only [body, List.mem_flatMap, Field.commands, List.mem_append, Option.mem_toList,
    Option.bind_eq_some_iff]

end TableShift
