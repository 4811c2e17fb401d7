import TableShift.Proofs.ClauseEffects
import TableShift.Proofs.KeyReading
import TableShift.Proofs.Layout

/-! # A key of a new table and an added key

The kind of an added key, its columns and what it refers to are searched among the tokens
of its clause. They are those of the key that a new table has from the same clause, so
both lead to the same command.
-/

namespace TableShift

open Lexeme

/-! ## What is found among tokens -/

namespace KeyColumns

theorem parameterTexts_append (s : KeyColumns) (rest : List Token) :
    parameterTexts (s.tokens ++ rest) = s.names := by
  have texts := parameterTexts_separated s.part_of_name s.separated_bare rest
  rw [tokens, List.cons_append, List.append_assoc, List.singleton_append, texts, List.map_map]
  apply List.map_congr_left
  intro part _
  simp [part.column.asIdentifier_lexeme, Token.text, Token.toValue, Token.sql, Value.text]

theorem parameterTexts_tokens (s : KeyColumns) : parameterTexts s.tokens = s.names := by
  have alone := s.parameterTexts_append []
  rwa [List.append_nil] at alone

theorem names_ne_nil (s : KeyColumns) : s.names ≠ [] := by
  simpa [names] using s.nonempty

theorem keyword?_tokens (s : KeyColumns) : ∀ token ∈ s.tokens, token.keyword? = none := by
  intro token member
  simp only [tokens, List.mem_cons, List.mem_append, List.mem_map, List.not_mem_nil, or_false]
    at member
  rcases member with rfl | ⟨l, _, rfl⟩ | rfl
  · rfl
  · exact keyword?_asIdentifier l
  · rfl

end KeyColumns

theorem tokensAfter?_append {condition : Token → Bool} {tokens : List Token}
    (h : ∀ token ∈ tokens, condition token = false) (rest : List Token) :
    tokensAfter? condition (tokens ++ rest) = tokensAfter? condition rest := by
  induction tokens with
  | nil => rfl
  | cons token tokens ih =>
      rw [List.forall_mem_cons] at h
      rw [List.cons_append, tokensAfter?, h.1]
      exact ih h.2

theorem Token.isKeyword_of_keyword? {token : Token} (h : token.keyword? = none) (word : String) :
    token.isKeyword word = false := by
  cases token with
  | keyword => simp [keyword?] at h
  | identifier | literal | punct => rfl

theorem referenceOptions_cons {token : Token}
    (h : token.keyword?.bind ReferenceEvent.ofKeyword? = none) (rest : List Token) :
    referenceOptions (token :: rest) = referenceOptions rest := by
  cases rest with
  | nil => rfl
  | cons action rest => simp [referenceOptions, h]

theorem referenceOptions_append {tokens : List Token}
    (h : ∀ token ∈ tokens, token.keyword? = none) (rest : List Token) :
    referenceOptions (tokens ++ rest) = referenceOptions rest := by
  induction tokens with
  | nil => rfl
  | cons token tokens ih =>
      rw [List.forall_mem_cons] at h
      rw [List.cons_append, referenceOptions_cons (by rw [h.1]; rfl)]
      exact ih h.2

namespace ActionSyntax

theorem referenceOptions_flatMap (actions : List ActionSyntax) :
    referenceOptions (actions.flatMap tokens) = actions.map option := by
  induction actions with
  | nil => rfl
  | cons s actions ih =>
      have passed : (Token.keyword s.actionWord).keyword?.bind ReferenceEvent.ofKeyword? = none :=
        (ReferenceAction.plain_of_ofKeyword? s.isAction).2
      rw [List.flatMap_cons, List.map_cons, tokens, List.cons_append, List.singleton_append,
        referenceOptions]
      simp only [Token.keyword?, Option.bind_some, s.isEvent, s.isAction]
      rw [referenceOptions_cons passed, ih]

theorem parameterTexts_flatMap (actions : List ActionSyntax) :
    parameterTexts (actions.flatMap tokens) = [] := by
  have closed : ∀ token ∈ actions.flatMap tokens, token.isPunct '(' = false := by
    intro token member
    obtain ⟨s, _, found⟩ := List.mem_flatMap.mp member
    simp only [tokens, List.mem_cons, List.not_mem_nil, or_false] at found
    rcases found with rfl | rfl
    · rfl
    · rfl
  have none := tokensAfter?_append closed []
  rw [List.append_nil] at none
  rw [parameterTexts, none]
  rfl

end ActionSyntax

namespace ReferenceSyntax

theorem columns_tailTokens (s : ReferenceSyntax) :
    parameterTexts s.tailTokens = s.target.columns := by
  cases given : s.columns with
  | none =>
      simp only [tailTokens, target, given]
      exact ActionSyntax.parameterTexts_flatMap s.actions
  | some columns =>
      simp only [tailTokens, target, given, Option.map_some, Option.getD_some]
      exact columns.parameterTexts_append _

theorem options_tailTokens (s : ReferenceSyntax) :
    referenceOptions s.tailTokens = s.target.options := by
  cases given : s.columns with
  | none =>
      simp only [tailTokens, target, given]
      exact ActionSyntax.referenceOptions_flatMap s.actions
  | some columns =>
      simp only [tailTokens, target, given, Option.map_some, Option.getD_some]
      rw [referenceOptions_append columns.keyword?_tokens]
      exact ActionSyntax.referenceOptions_flatMap s.actions

theorem referencesOf?_append (s : ReferenceSyntax) {before : List Token}
    (h : ∀ token ∈ before, token.isKeyword "REFERENCES" = false) :
    AlterOperation.referencesOf? (before ++ s.tokens) = some s.target := by
  have found : tokensAfter? (·.isKeyword "REFERENCES") (before ++ s.tokens) =
      some (.identifier s.table.name :: s.tailTokens) := by
    rw [tokensAfter?_append h]
    rfl
  have options : referenceOptions (.identifier s.table.name :: s.tailTokens) = s.target.options := by
    rw [referenceOptions_cons rfl, s.options_tailTokens]
  rw [AlterOperation.referencesOf?, found, Option.map_some, options, List.tail_cons,
    s.columns_tailTokens]
  rfl

end ReferenceSyntax

/-! ## Commands -/

namespace KeySyntax

/-- The command that both readings of the clause lead to. -/
def command : KeySyntax → TableCommand
  | index _ word _ _ name columns =>
    .key (indexKind word) columns.names (name.map NameSyntax.name)
  | foreign constraint _ _ columns reference =>
    .foreign columns.names (symbol? constraint) (some reference.target)

theorem commands_field (s : KeySyntax) (autoIncrement : List String) :
    s.field.commands autoIncrement = [s.command] := by
  cases s with
  | index head word spelled listed name columns =>
      obtain ⟨primary, foreign⟩ := indexKind_of_mem listed
      have names := columns.name_indexColumns
      cases kind : indexKind word with
      | primary => exact absurd kind primary
      | foreign => exact absurd kind foreign
      | index | unique | fullText =>
          simp [field, command, Field.commands, Field.columnCommand?, Field.keyCommand?,
            Key.columnNames, kind, names]
  | foreign constraint head spelled columns reference =>
      have names := columns.name_indexColumns
      simp [field, command, Field.commands, Field.columnCommand?, Field.keyCommand?,
        Key.columnNames, names]

theorem classify?_add {word : String} {head : ClauseHead}
    (found : addHeads.find? (·.keywords.any (Token.keyword word).isKeyword) = some head)
    (tokens : List Token) :
    AlterKind.classify? ["ADD"] (.keyword word :: tokens) =
      some (head.kind, if head.consumed then tokens else .keyword word :: tokens) := by
  have rule : clauseRules.find? (·.appliesTo ["ADD"]) =
      some ⟨["ADD"], addHeads, some .addColumn⟩ := by decide
  rw [AlterKind.classify?, rule]
  simp only [Option.bind_some, ClauseRule.kind?, List.head?_cons, found]
  rfl

theorem up_addedKey (operation : AlterOperation) {kind : AlterKind} {tokens : List Token}
    {key : KeyKind} {columns : KeyColumns}
    (classified : AlterKind.classify? operation.options operation.tokens = some (kind, tokens))
    (adds : kind.addedKey? = some key) (texts : parameterTexts tokens = columns.names)
    (table : String) :
    (operation.effect? table).toList.flatMap ClauseEffect.up =
      [.key key columns.names (operation.target? tokens)] := by
  have listed := columns.names_ne_nil
  cases kind with
  | addIndex | addUnique | addFullText =>
      cases adds
      simp [AlterOperation.effect?, classified, AlterOperation.keyEffect?, texts, listed]
  | _ => simp [AlterKind.addedKey?] at adds

theorem up_addedConstraint {operation : AlterOperation} {columns : KeyColumns}
    {reference : ReferenceSyntax}
    (tokens : operation.tokens = .keyword "FOREIGN KEY" :: (columns.tokens ++ reference.tokens))
    (classified : AlterKind.classify? operation.options operation.tokens =
      some (.addConstraint, operation.tokens)) (table : String) :
    (operation.effect? table).toList.flatMap ClauseEffect.up =
      [.foreign columns.names operation.field (some reference.target)] := by
  -- No column is taken for the keyword, however it is spelled: columns are no keywords.
  have before : ∀ token ∈ Token.keyword "FOREIGN KEY" :: columns.tokens,
      token.isKeyword "REFERENCES" = false := by
    rw [List.forall_mem_cons]
    refine ⟨by decide, fun token member => ?_⟩
    exact Token.isKeyword_of_keyword? (columns.keyword?_tokens token member) _
  have target : AlterOperation.referencesOf? operation.tokens = some reference.target := by
    rw [tokens, ← List.cons_append]
    exact reference.referencesOf?_append before
  have after : tokensAfter? (·.isKeyword "FOREIGN KEY") operation.tokens =
      some (columns.tokens ++ reference.tokens) := by
    rw [tokens]
    rfl
  have texts := columns.parameterTexts_append reference.tokens
  simp [AlterOperation.effect?, classified, AlterOperation.constraintEffect?, after, texts,
    columns.names_ne_nil, target]

theorem up_indexed {word : String} (plain : word = "INDEX" ∨ word = "KEY")
    (name : Option NameSyntax) (columns : KeyColumns) (table : String) :
    ((AlterOperation.mk ["ADD", word] (name.map NameSyntax.name) columns.tokens).effect?
      table).toList.flatMap ClauseEffect.up =
      [.key .index columns.names (name.map NameSyntax.name)] := by
  -- The rules for these words have no heads: the kind does not depend on the tokens.
  have classified : AlterKind.classify? ["ADD", word] columns.tokens =
      some (.addIndex, columns.tokens) := by
    rcases plain with rfl | rfl
    · rfl
    · rfl
  rw [up_addedKey ⟨["ADD", word], name.map NameSyntax.name, columns.tokens⟩ classified rfl
    columns.parameterTexts_tokens]
  cases name with
  | none => rfl
  | some name => rfl

theorem up_headed {word : String} (listed : word ∈ indexWords)
    (other : ¬(word = "INDEX" ∨ word = "KEY")) (name : Option NameSyntax) (columns : KeyColumns)
    (table : String) :
    ((AlterOperation.mk ["ADD"] none (.keyword word :: (nameTokens name ++ columns.tokens))).effect?
      table).toList.flatMap ClauseEffect.up =
      [.key (indexKind word) columns.names (name.map NameSyntax.name)] := by
  have heads : ∀ word ∈ indexWords, ¬(word = "INDEX" ∨ word = "KEY") →
      (addHeads.find? (·.keywords.any (Token.keyword word).isKeyword)).map
        (fun head => (head.kind.addedKey?, head.consumed)) = some (some (indexKind word), true) := by
    decide
  obtain ⟨head, found, shape⟩ := Option.map_eq_some_iff.mp (heads word listed other)
  simp only [Prod.mk.injEq] at shape
  have texts : parameterTexts (nameTokens name ++ columns.tokens) = columns.names := by
    cases name with
    | none => exact columns.parameterTexts_tokens
    | some name => exact columns.parameterTexts_tokens
  have classified := classify?_add found (nameTokens name ++ columns.tokens)
  rw [if_pos shape.2] at classified
  rw [up_addedKey ⟨["ADD"], none, .keyword word :: (nameTokens name ++ columns.tokens)⟩ classified
    shape.1 texts]
  cases name with
  | none => rfl
  | some name => rfl

theorem up_operation (s : KeySyntax) (table : String) :
    (s.operation.effect? table).toList.flatMap ClauseEffect.up = [s.command] := by
  cases s with
  | index head word spelled listed name columns =>
      by_cases plain : word = "INDEX" ∨ word = "KEY"
      · have kind : indexKind word = .index := by
          rcases plain with rfl | rfl
          · rfl
          · rfl
        rw [operation, if_pos plain, command, kind]
        exact up_indexed plain name columns table
      · rw [operation, if_neg plain]
        exact up_headed listed plain name columns table
  | foreign constraint head spelled columns reference =>
      cases constraint with
      | none => exact up_addedConstraint rfl rfl table
      | some constraint => exact up_addedConstraint rfl rfl table

/-! ## Agreement -/

/-- A key clause is read in a new table and in an alteration that adds the key, and both
    write the same lines. -/
theorem lines_agree (s : KeySyntax) (add : Lexeme) (hadd : add.token = .keyword "ADD") :
    ∃ field operation,
      (Cursor.ofSlice s.lexemes).definition = .ok (some field) ∧
      (Cursor.ofSlice (add :: s.lexemes)).alterClause = .ok operation ∧
      ∀ autoIncrement table, field.lines autoIncrement = operation.lines table := by
  refine ⟨s.field, s.operation, s.definition_lexemes _, s.alterClause_lexemes hadd _, ?_⟩
  intro autoIncrement table
  rw [Field.lines, s.commands_field, AlterOperation.lines, s.up_operation]

/-- The clause `CONSTRAINT fk FOREIGN KEY (owner, name(10)) REFERENCES users (id, name)
    ON DELETE CASCADE ON UPDATE SET NULL`. -/
def ownerReference : KeySyntax :=
  .foreign
    (some ⟨⟨.keyword "CONSTRAINT", "CONSTRAINT", 4, 14⟩,
      some ⟨⟨.identifier "fk", "fk", 15, 17⟩, "fk", rfl⟩, rfl⟩)
    ⟨.keyword "FOREIGN KEY", "FOREIGN KEY", 18, 29⟩ rfl
    { opening := ⟨.punct '(', "(", 30, 31⟩
      closing := ⟨.punct ')', ")", 46, 47⟩
      parts :=
        [⟨⟨⟨.identifier "owner", "owner", 31, 36⟩, "owner", rfl⟩, none⟩,
          ⟨⟨⟨.identifier "name", "name", 38, 42⟩, "name", rfl⟩,
            some ⟨⟨.punct '(', "(", 42, 43⟩, ⟨.literal (.number "10"), "10", 43, 45⟩,
              ⟨.punct ')', ")", 45, 46⟩, "10", rfl, rfl, rfl⟩⟩]
      inside := _
      opens := rfl
      closes := rfl
      nonempty := List.cons_ne_nil _ _
      separated := @Separated.cons _ ⟨.punct ',', ",", 36, 37⟩ _ _ rfl (.one _) }
    { head := ⟨.keyword "REFERENCES", "REFERENCES", 48, 58⟩
      table := ⟨⟨.identifier "users", "users", 59, 64⟩, "users", rfl⟩
      columns := some
        { opening := ⟨.punct '(', "(", 65, 66⟩
          closing := ⟨.punct ')', ")", 74, 75⟩
          parts :=
            [⟨⟨⟨.identifier "id", "id", 66, 68⟩, "id", rfl⟩, none⟩,
              ⟨⟨⟨.identifier "name", "name", 70, 74⟩, "name", rfl⟩, none⟩]
          inside := _
          opens := rfl
          closes := rfl
          nonempty := List.cons_ne_nil _ _
          separated := @Separated.cons _ ⟨.punct ',', ",", 68, 69⟩ _ _ rfl (.one _) }
      actions :=
        [⟨⟨.keyword "ON DELETE", "ON DELETE", 76, 85⟩, "ON DELETE",
            ⟨.keyword "CASCADE", "CASCADE", 86, 93⟩, "CASCADE", ⟨.onDelete, .cascade⟩, rfl, rfl,
            rfl, rfl⟩,
          ⟨⟨.keyword "ON UPDATE", "ON UPDATE", 94, 103⟩, "ON UPDATE",
            ⟨.keyword "SET NULL", "SET NULL", 104, 112⟩, "SET NULL", ⟨.onUpdate, .setNull⟩, rfl, rfl,
            rfl, rfl⟩]
      spelled := rfl }

theorem lines_agree_ownerReference :
    tokenize ("ADD CONSTRAINT fk FOREIGN KEY (owner, name(10)) REFERENCES users (id, name)" ++
        " ON DELETE CASCADE ON UPDATE SET NULL") =
        .ok (⟨.keyword "ADD", "ADD", 0, 3⟩ :: ownerReference.lexemes) ∧
      ∃ field operation,
        (Cursor.ofSlice ownerReference.lexemes).definition = .ok (some field) ∧
        (Cursor.ofSlice (⟨.keyword "ADD", "ADD", 0, 3⟩ :: ownerReference.lexemes)).alterClause =
          .ok operation ∧
        ∀ autoIncrement table, field.lines autoIncrement = operation.lines table :=
  ⟨by decide +kernel, ownerReference.lines_agree ⟨.keyword "ADD", "ADD", 0, 3⟩ rfl⟩

end KeySyntax

end TableShift
