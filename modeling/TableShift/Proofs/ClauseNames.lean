import TableShift.Proofs.KeyAgreement
import TableShift.Proofs.TableNames

/-! # Tables that clauses name

A clause of an alteration keeps its tokens, and the name of a table is looked for in one of
them. So behind a qualifier the clause is about the schema. The name itself stands where no
name is expected: spelled with a keyword, it is read as that keyword.
-/

namespace TableShift

open Lexeme

/-! ## Renaming -/

/-- What stands in a clause before the new name of its table. -/
inductive Lexeme.RenameHead : List Lexeme → Prop where
  | renameTo {rename word : Lexeme} (verb : rename.token = .keyword "RENAME")
      (spelled : word.token = .keyword "TO") : RenameHead [rename, word]
  | renameAs {rename word : Lexeme} (verb : rename.token = .keyword "RENAME")
      (spelled : word.token = .keyword "AS") : RenameHead [rename, word]

theorem Lexeme.RenameHead.exists_operation {front : List Lexeme} (h : RenameHead front)
    {l : Lexeme} {name : String} (named : l.name? = some name) (rest : List Lexeme) (stop : Nat) :
    ∃ operation, Cursor.alterClause ⟨front ++ l :: rest, stop⟩ = .ok operation ∧
      ∀ table, operation.effect? table = some ⟨[.rename name], .rename table, name⟩ := by
  have identifier : l.asIdentifier = .identifier name := by simp [asIdentifier, named]
  cases h with
  | renameTo verb spelled =>
      refine ⟨⟨["RENAME", "TO"], none, namedRemainder (l :: rest)⟩, ?_, ?_⟩
      · simp [Cursor.alterClause, verb, Token.keyword?, Cursor.next, Cursor.renameClause,
          Cursor.keyword?, spelled]
      · intro table
        have classified (tokens : List Token) : AlterKind.classify? ["RENAME", "TO"] tokens =
            some (.renameTable, tokens) := by
          have rule : clauseRules.find? (·.appliesTo ["RENAME", "TO"]) =
              some ⟨["RENAME", "TO"], [], some .renameTable⟩ := by decide
          simp [AlterKind.classify?, rule, ClauseRule.kind?]
        simp only [AlterOperation.effect?, classified, AlterOperation.renameTableEffect?,
          AlterOperation.target?, namedRemainder, remainder, clauseTokens, identifier]
        rfl
  | @renameAs rename word verb spelled =>
      refine ⟨⟨["RENAME"], none, remainder (word :: l :: rest)⟩, ?_, ?_⟩
      · simp [Cursor.alterClause, verb, Token.keyword?, Cursor.next, Cursor.renameClause,
          Cursor.keyword?, spelled]
      · intro table
        have classified (tokens : List Token) :
            AlterKind.classify? ["RENAME"] (.keyword "AS" :: tokens) =
              some (.renameTable, tokens) := rfl
        have introduces : word.introducesName = true := by
          rw [introducesName_keyword spelled]
          decide
        simp only [AlterOperation.effect?, remainder, clauseTokens_flat (flat_of_keyword spelled),
          Bool.false_eq_true, if_false, spelled, classified, introduces,
          clauseTokens_flat (flat_of_name? named), if_true, identifier]
        rfl

/-! ## Groups among tokens -/

/-- Tokens in which every group is closed. -/
def Token.Closed (tokens : List Token) : Prop :=
  ∀ rest, .punct '(' :: rest <:+ tokens → .punct ')' ∈ rest

theorem Token.Closed.of_suffix {tokens suffix : List Token} (h : Closed tokens)
    (ends : suffix <:+ tokens) : Closed suffix :=
  fun rest group => h rest (group.trans ends)

theorem Token.Closed.of_flat {tokens : List Token} (h : ∀ token ∈ tokens, token.isPunct '(' = false) :
    Closed tokens := by
  intro rest group
  have flat := h (.punct '(') (group.subset (List.mem_cons_self ..))
  simp [isPunct] at flat

theorem Token.Closed.append {xs ys : List Token} (hx : Closed xs) (hy : Closed ys) :
    Closed (xs ++ ys) := by
  induction xs with
  | nil => exact hy
  | cons x xs ih =>
      intro rest group
      rw [List.cons_append, List.suffix_cons_iff] at group
      rcases group with whole | later
      · obtain ⟨rfl, rfl⟩ := List.cons.inj whole
        exact List.mem_append_left _ (hx xs List.suffix_rfl)
      · exact ih (hx.of_suffix (List.suffix_cons _ _)) rest later

theorem textsToClose?_append {tokens : List Token} (h : .punct ')' ∈ tokens) (rest : List Token) :
    textsToClose? (tokens ++ rest) = textsToClose? tokens := by
  induction tokens with
  | nil => simp at h
  | cons token tokens ih =>
      by_cases closes : token = .punct ')'
      · simp [textsToClose?, closes, Token.isPunct]
      · have later : .punct ')' ∈ tokens := (List.mem_cons.mp h).resolve_left (Ne.symm closes)
        have open_ : token.isPunct ')' = false :=
          Bool.eq_false_iff.mpr (mt Token.isPunct_iff.mp closes)
        simp only [List.cons_append, textsToClose?, open_, Bool.false_eq_true, if_false, ih later]

theorem parameterTexts_cons {token : Token} (h : token.isPunct '(' = false) (rest : List Token) :
    parameterTexts (token :: rest) = parameterTexts rest := by
  simp [parameterTexts, tokensAfter?, h]

/-- The parameters behind closed groups are those of the first group. -/
theorem parameterTexts_append {tokens : List Token} (closed : Token.Closed tokens)
    (rest : List Token) :
    parameterTexts (tokens ++ rest) =
      if tokens.any (·.isPunct '(') then parameterTexts tokens else parameterTexts rest := by
  induction tokens with
  | nil => simp
  | cons token tokens ih =>
      by_cases opens : token = .punct '('
      · have closes := closed tokens (opens ▸ List.suffix_rfl)
        simp [parameterTexts, tokensAfter?, opens, Token.isPunct, textsToClose?_append closes]
      · have bare : token.isPunct '(' = false :=
          Bool.eq_false_iff.mpr (mt Token.isPunct_iff.mp opens)
        rw [List.cons_append, parameterTexts_cons bare, parameterTexts_cons bare,
          ih (closed.of_suffix (List.suffix_cons _ _)), List.any_cons, bare, Bool.false_or]

namespace Lexeme

theorem mem_clauseTokens {depth : Nat} {ls : List Lexeme}
    (h : ls.foldl depthAfter (depth + 1) = 0) (before : Bool) :
    .punct ')' ∈ clauseTokens (depth + 1) before ls := by
  induction ls generalizing depth before with
  | nil => simp at h
  | cons l ls ih =>
      rw [List.foldl_cons] at h
      rcases l.opens_or_closes_or_flat with opens | closes | flat
      · rw [depthAfter_open opens] at h
        rw [clauseTokens, depthAfter_open opens]
        exact List.mem_cons_of_mem _ (ih h _)
      · rw [clauseTokens, closes, asIdentifier_punct closes]
        simp
      · rw [depthAfter_flat flat] at h
        rw [clauseTokens, depthAfter_flat flat]
        exact List.mem_cons_of_mem _ (ih h _)

theorem closed_clauseTokens {depth : Nat} {ls : List Lexeme} (h : ls.foldl depthAfter depth = 0)
    (before : Bool) : Token.Closed (clauseTokens depth before ls) := by
  induction ls generalizing depth before with
  | nil =>
      intro rest group
      simp [clauseTokens] at group
  | cons l ls ih =>
      rw [List.foldl_cons] at h
      intro rest group
      rw [clauseTokens, List.suffix_cons_iff] at group
      rcases group with whole | later
      · have token := (List.cons.inj whole).1
        have opens : l.token = .punct '(' := by
          apply Token.isPunct_iff.mp
          split at token
          · rw [← isPunct_asIdentifier, ← token]
            rfl
          · rw [← token]
            rfl
        rw [depthAfter_open opens] at h whole
        rw [(List.cons.inj whole).2]
        exact mem_clauseTokens h _
      · exact ih h _ rest later

end Lexeme

/-! ## Foreign keys -/

namespace Lexeme

theorem withoutLengths_deep {ls : List Lexeme} (h : Balanced ls) (depth : Nat)
    (rest : List Lexeme) :
    withoutLengths (depth + 2) (ls ++ rest) = withoutLengths (depth + 2) rest := by
  induction h generalizing depth rest with
  | nil => rfl
  | flat flat _ ih => simp [withoutLengths, flat.1, flat.2, ih]
  | group opens _ closes _ inner_ih ih =>
      rw [List.cons_append, List.append_assoc, List.cons_append]
      simp [withoutLengths, opens, closes, Token.isPunct, inner_ih, ih]

theorem withoutLengths_columns {ls : List Lexeme} (h : Balanced ls) :
    (∀ l ∈ withoutLengths 1 ls, l.Flat) ∧
      ∀ rest, withoutLengths 1 (ls ++ rest) = withoutLengths 1 ls ++ withoutLengths 1 rest := by
  induction h with
  | nil => simp [withoutLengths]
  | flat flat _ ih =>
      simp only [List.cons_append, withoutLengths_flat flat (Nat.le_refl 1), List.forall_mem_cons,
        List.cons.injEq, true_and]
      exact ⟨⟨flat, ih.1⟩, ih.2⟩
  | @group opening closing inside ls opens inner closes _ _ ih =>
      have skipped (rest : List Lexeme) :
          withoutLengths 1 (opening :: (inside ++ closing :: rest)) = withoutLengths 1 rest := by
        have deep := withoutLengths_deep inner 0 (closing :: rest)
        simp only [Nat.zero_add] at deep
        simp [withoutLengths, opens, closes, Token.isPunct, deep]
      refine ⟨?_, ?_⟩
      · rw [skipped]
        exact ih.1
      · intro rest
        rw [List.cons_append, List.append_assoc, List.cons_append, skipped, skipped]
        exact ih.2 rest

/-- The words of a name are not taken for names of their own. -/
theorem clauseTokens_denoted {name : String} {ls : List Lexeme} (h : Denotes name ls) :
    ∃ before, ∀ rest, clauseTokens 0 false (ls ++ rest) =
      ls.map Lexeme.token ++ clauseTokens 0 before rest := by
  induction h with
  | @last l named =>
      refine ⟨l.introducesName, fun rest => ?_⟩
      rw [List.cons_append, clauseTokens_flat (flat_of_name? named)]
      rfl
  | @qualified l dot _ ls named dotted _ ih =>
      obtain ⟨before, read⟩ := ih
      refine ⟨before, fun rest => ?_⟩
      have flat : dot.Flat := by simp [Flat, dotted, Token.isPunct]
      rw [List.cons_append, List.cons_append, clauseTokens_flat (flat_of_name? named),
        clauseTokens_flat flat, introducesName_punct dotted, read, asIdentifier_punct dotted]
      simp [dotted]

theorem withoutLengths_of_flat {ls : List Lexeme} (h : ∀ l ∈ ls, l.Flat) (rest : List Lexeme) :
    withoutLengths 0 (ls ++ rest) = ls ++ withoutLengths 0 rest := by
  induction ls with
  | nil => rfl
  | cons l ls ih =>
      rw [List.forall_mem_cons] at h
      rw [List.cons_append, withoutLengths_flat h.1 (Nat.zero_le 1), ih h.2, List.cons_append]

end Lexeme

namespace ForeignKeyHead

/-- The columns without lengths. -/
def bare (h : ForeignKeyHead) : List Lexeme :=
  withoutLengths 1 h.columns

/-- The tokens of the columns, with the key's name before them. -/
def groupTokens (h : ForeignKeyHead) : List Token :=
  h.keyName.map Lexeme.token ++ .punct '(' :: (h.bare.map asIdentifier ++ [.punct ')'])

/-- The tokens before the table that the key refers to. -/
def tokens (h : ForeignKeyHead) : List Token :=
  .keyword "FOREIGN KEY" :: (h.groupTokens ++ [.keyword "REFERENCES"])

theorem flat_keyName (h : ForeignKeyHead) : ∀ l ∈ h.keyName, l.Flat := by
  rcases h.named with unnamed | ⟨name, denoted⟩
  · simp [unnamed]
  · exact flat_of_denoted denoted

theorem flat_bare (h : ForeignKeyHead) : ∀ l ∈ h.bare, l.Flat :=
  (withoutLengths_columns h.balanced).1

theorem keyRemainder_append (h : ForeignKeyHead) (rest : List Lexeme) :
    keyRemainder (h.head :: (h.group ++ h.reference :: rest)) =
      h.tokens ++ clauseTokens 0 true (withoutLengths 0 rest) := by
  have columns := (withoutLengths_columns h.balanced).2
  have reference := flat_of_keyword h.refers
  have introduces : h.reference.introducesName = true := by
    rw [introducesName_keyword h.refers]
    decide
  have stripped : withoutLengths 0 (h.group ++ h.reference :: rest) =
      h.keyName ++ h.opening :: (h.bare ++ h.closing :: h.reference :: withoutLengths 0 rest) := by
    rw [group, List.append_assoc, withoutLengths_of_flat h.flat_keyName, List.cons_append,
      withoutLengths_open h.opens, List.append_assoc, columns, List.singleton_append,
      withoutLengths_close h.closes, withoutLengths_flat reference (Nat.zero_le 1)]
    rfl
  have behind (before : Bool) : clauseTokens 0 before
      (h.opening :: (h.bare ++ h.closing :: h.reference :: withoutLengths 0 rest)) =
        .punct '(' :: (h.bare.map asIdentifier ++ .punct ')' :: .keyword "REFERENCES" ::
          clauseTokens 0 true (withoutLengths 0 rest)) := by
    have balanced : Balanced h.bare := balanced_of_flat h.flat_bare
    rw [clauseTokens_group h.opens balanced h.closes, clauseTokens_flat reference, introduces,
      h.refers]
    rfl
  have all : clauseTokens 0 false (withoutLengths 0 (h.group ++ h.reference :: rest)) =
      h.groupTokens ++ .keyword "REFERENCES" :: clauseTokens 0 true (withoutLengths 0 rest) := by
    rw [stripped]
    rcases h.named with unnamed | ⟨name, denoted⟩
    · simp [unnamed, behind, groupTokens]
    · obtain ⟨before, read⟩ := clauseTokens_denoted denoted
      simp [read, behind, groupTokens]
  have plain : h.head.introducesName = false := by
    rw [introducesName_keyword h.spelled]
    decide
  rw [keyRemainder_cons (flat_of_keyword h.spelled) plain, h.spelled, keyRemainder, remainder, all]
  simp [tokens]

end ForeignKeyHead

theorem tokensAfter?_append_of_some {condition : Token → Bool} {tokens found : List Token}
    (h : tokensAfter? condition tokens = some found) (rest : List Token) :
    tokensAfter? condition (tokens ++ rest) = some (found ++ rest) := by
  induction tokens with
  | nil => simp [tokensAfter?] at h
  | cons token tokens ih =>
      cases here : condition token with
      | true =>
          simp only [tokensAfter?, here, if_true, Option.some.injEq] at h
          simp [tokensAfter?, here, h]
      | false =>
          simp only [tokensAfter?, here, Bool.false_eq_true, if_false] at h
          simp [tokensAfter?, here, ih h]

theorem isSome_tokensAfter? (condition : Token → Bool) (tokens : List Token) :
    (tokensAfter? condition tokens).isSome = tokens.any condition := by
  induction tokens with
  | nil => rfl
  | cons token tokens ih =>
      cases here : condition token <;> simp [tokensAfter?, here, ih]

theorem suffix_of_tokensAfter? {condition : Token → Bool} {tokens found : List Token}
    (h : tokensAfter? condition tokens = some found) : found <:+ tokens := by
  induction tokens with
  | nil => simp [tokensAfter?] at h
  | cons token tokens ih =>
      rw [tokensAfter?] at h
      split at h
      · cases h
        exact List.suffix_cons _ _
      · exact (ih h).trans (List.suffix_cons _ _)

/-- The action that two tokens spell, if they do. -/
def ReferenceOption.of? (event action : Token) : Option ReferenceOption := do
  let event ← event.keyword?.bind ReferenceEvent.ofKeyword?
  let action ← action.keyword?.bind ReferenceAction.ofKeyword?
  return ⟨event, action⟩

theorem referenceOptions_cons_cons (event action : Token) (rest : List Token) :
    referenceOptions (event :: action :: rest) =
      (ReferenceOption.of? event action).toList ++ referenceOptions (action :: rest) := by
  rw [referenceOptions, ReferenceOption.of?]
  cases event.keyword?.bind ReferenceEvent.ofKeyword? with
  | none => rfl
  | some event => cases action.keyword?.bind ReferenceAction.ofKeyword? <;> rfl

/-- An action does not reach across a token that is no event. -/
theorem referenceOptions_append_cons {token : Token}
    (h : token.keyword?.bind ReferenceEvent.ofKeyword? = none) (tokens rest : List Token) :
    referenceOptions (tokens ++ token :: rest) =
      referenceOptions (tokens ++ [token]) ++ referenceOptions rest := by
  induction tokens with
  | nil => simp [referenceOptions_cons h, referenceOptions]
  | cons event tokens ih =>
      cases tokens with
      | nil =>
          simp only [List.cons_append, List.nil_append, referenceOptions_cons_cons] at ih ⊢
          rw [ih, List.append_assoc]
      | cons action tokens =>
          simp only [List.cons_append, referenceOptions_cons_cons] at ih ⊢
          rw [ih, List.append_assoc]

namespace ForeignKeyHead

/-- Whether a word of the key's name is `REFERENCES`, which is then found first. -/
def shadowed (h : ForeignKeyHead) : Bool :=
  h.keyName.any (·.token.isKeyword "REFERENCES")

theorem closed_tokens (h : ForeignKeyHead) : Token.Closed h.tokens := by
  have name : Token.Closed (.keyword "FOREIGN KEY" :: h.keyName.map Lexeme.token) := by
    apply Token.Closed.of_flat
    rw [List.forall_mem_cons, List.forall_mem_map]
    exact ⟨rfl, fun l member => (h.flat_keyName l member).1⟩
  have columns : Token.Closed (.punct '(' :: (h.bare.map asIdentifier ++ [.punct ')'])) := by
    intro rest group
    rcases List.suffix_cons_iff.mp group with whole | later
    · simp [(List.cons.inj whole).2]
    · have flat : ∀ token ∈ h.bare.map asIdentifier ++ [.punct ')'], token.isPunct '(' = false := by
        rw [List.forall_mem_append, List.forall_mem_map, List.forall_mem_singleton]
        refine ⟨fun l member => ?_, rfl⟩
        rw [isPunct_asIdentifier]
        exact (h.flat_bare l member).1
      exact Token.Closed.of_flat flat rest later
  have reference : Token.Closed [.keyword "REFERENCES"] := .of_flat (by simp [Token.isPunct])
  have all := (name.append columns).append reference
  simpa [tokens, groupTokens] using all

theorem tokensAfter?_tokens (h : ForeignKeyHead) :
    (h.shadowed = false ∧ tokensAfter? (·.isKeyword "REFERENCES") h.tokens = some []) ∨
    (h.shadowed = true ∧ ∃ first front, tokensAfter? (·.isKeyword "REFERENCES") h.tokens =
      some (first :: (front ++ [.keyword "REFERENCES"]))) := by
  have columns : ∀ token ∈ Token.punct '(' :: (h.bare.map asIdentifier ++ [.punct ')']),
      token.isKeyword "REFERENCES" = false := by
    intro token member
    simp only [List.mem_cons, List.mem_append, List.mem_map, List.not_mem_nil, or_false] at member
    rcases member with rfl | ⟨l, _, rfl⟩ | rfl
    · rfl
    · exact Token.isKeyword_of_keyword? (keyword?_asIdentifier l) _
    · rfl
  have start (rest : List Token) : tokensAfter? (·.isKeyword "REFERENCES")
      (.keyword "FOREIGN KEY" :: rest) = tokensAfter? (·.isKeyword "REFERENCES") rest := rfl
  rw [tokens, start, groupTokens, List.append_assoc]
  cases spelled : h.shadowed with
  | false =>
      refine .inl ⟨rfl, ?_⟩
      rw [tokensAfter?_append, tokensAfter?_append columns]
      · rfl
      · simpa [shadowed] using spelled
  | true =>
      refine .inr ⟨rfl, ?_⟩
      obtain ⟨found, read⟩ : ∃ found, tokensAfter? (·.isKeyword "REFERENCES")
          (h.keyName.map Lexeme.token) = some found := by
        apply Option.isSome_iff_exists.mp
        rw [isSome_tokensAfter?, List.any_map]
        exact spelled
      rw [tokensAfter?_append_of_some read]
      cases found with
      | nil => exact ⟨_, _, rfl⟩
      | cons first found =>
          refine ⟨first, found ++ .punct '(' :: (h.bare.map asIdentifier ++ [.punct ')']), ?_⟩
          simp

/-- The target of the key with the name of a table behind `REFERENCES`, and with a qualifier
    in front of that name. -/
theorem exists_target (h : ForeignKeyHead) :
    ∃ found : Option String, found.isSome = h.shadowed ∧
      ∀ (name schema : String) (token : Token) (rest : List Token), token.isPunct '(' = false →
        ∃ columns options,
          AlterOperation.referencesOf? (h.tokens ++ .identifier name :: rest) =
            some ⟨found.getD name, columns, options ++ referenceOptions rest⟩ ∧
          AlterOperation.referencesOf?
              (h.tokens ++ .identifier schema :: .punct '.' :: token :: rest) =
            some ⟨found.getD schema, columns, options ++ referenceOptions (token :: rest)⟩ := by
  have identifier (name : String) (rest : List Token) :
      referenceOptions (.identifier name :: rest) = referenceOptions rest :=
    referenceOptions_cons rfl rest
  have point (rest : List Token) : referenceOptions (.punct '.' :: rest) = referenceOptions rest :=
    referenceOptions_cons rfl rest
  have undotted (rest : List Token) : parameterTexts (.punct '.' :: rest) = parameterTexts rest :=
    parameterTexts_cons rfl rest
  have unnamed (name : String) (rest : List Token) :
      parameterTexts (.identifier name :: rest) = parameterTexts rest :=
    parameterTexts_cons rfl rest
  rcases h.tokensAfter?_tokens with ⟨plain, read⟩ | ⟨spelled, first, front, read⟩
  · refine ⟨none, plain.symm, ?_⟩
    intro name schema token rest bare
    refine ⟨parameterTexts rest, [], ?_, ?_⟩
    · rw [AlterOperation.referencesOf?, tokensAfter?_append_of_some read]
      simp only [Option.map_some, List.nil_append, List.tail_cons, identifier]
      rfl
    · rw [AlterOperation.referencesOf?, tokensAfter?_append_of_some read]
      simp only [Option.map_some, List.nil_append, List.tail_cons, identifier, point, undotted,
        parameterTexts_cons bare]
      rfl
  · refine ⟨some first.text, spelled.symm, ?_⟩
    intro name schema token rest bare
    have closed : Token.Closed (front ++ [.keyword "REFERENCES"]) :=
      h.closed_tokens.of_suffix
        ((List.suffix_cons _ _).trans (suffix_of_tokensAfter? read))
    have options (more : List Token) :
        referenceOptions (first :: (front ++ [.keyword "REFERENCES"]) ++ more) =
          referenceOptions (first :: (front ++ [.keyword "REFERENCES"])) ++
            referenceOptions more := by
      have split := referenceOptions_append_cons
        (rfl : (Token.keyword "REFERENCES").keyword?.bind ReferenceEvent.ofKeyword? = none)
        (first :: front) more
      simpa using split
    refine ⟨if (front ++ [Token.keyword "REFERENCES"]).any (·.isPunct '(') then
        parameterTexts (front ++ [.keyword "REFERENCES"]) else parameterTexts rest,
      referenceOptions (first :: (front ++ [.keyword "REFERENCES"])), ?_, ?_⟩
    · rw [AlterOperation.referencesOf?, tokensAfter?_append_of_some read, Option.map_some, options,
        identifier, List.cons_append, List.tail_cons, parameterTexts_append closed, unnamed]
      rfl
    · rw [AlterOperation.referencesOf?, tokensAfter?_append_of_some read, Option.map_some, options,
        identifier, point, List.cons_append, List.tail_cons, parameterTexts_append closed, unnamed,
        undotted, parameterTexts_cons bare]
      rfl

/-- The columns of the key, as a clause has them. -/
def columnTexts (h : ForeignKeyHead) : List String :=
  parameterTexts h.tokens

theorem effect?_append (h : ForeignKeyHead) {options : List String}
    (classified : ∀ tokens, AlterKind.classify? options (.keyword "FOREIGN KEY" :: tokens) =
      some (.addConstraint, .keyword "FOREIGN KEY" :: tokens)) (rest : List Token)
    (table : String) :
    (AlterOperation.mk options h.constraint (h.tokens ++ rest)).effect? table =
      if h.columnTexts.isEmpty then none
      else some ⟨[.foreign h.columnTexts h.constraint
          (AlterOperation.referencesOf? (h.tokens ++ rest))],
        .drop .dropForeign (AlterOperation.dropTarget h.constraint h.columnTexts), table⟩ := by
  have opened : h.tokens.any (·.isPunct '(') = true := by
    simp [tokens, groupTokens, Token.isPunct]
  have columns : parameterTexts ((h.groupTokens ++ [.keyword "REFERENCES"]) ++ rest) =
      h.columnTexts := by
    have all := parameterTexts_append h.closed_tokens rest
    rw [if_pos opened] at all
    exact all
  have kind : AlterKind.classify? options (h.tokens ++ rest) =
      some (.addConstraint, h.tokens ++ rest) := classified _
  have after : tokensAfter? (·.isKeyword "FOREIGN KEY") (h.tokens ++ rest) =
      some ((h.groupTokens ++ [.keyword "REFERENCES"]) ++ rest) := rfl
  simp only [AlterOperation.effect?, kind, AlterOperation.constraintEffect?, after, columns]

theorem exists_operation (h : ForeignKeyHead) {add : Lexeme} (verb : add.token = .keyword "ADD")
    (stop : Nat) :
    ∃ options,
      (∀ tokens, AlterKind.classify? options (.keyword "FOREIGN KEY" :: tokens) =
        some (.addConstraint, .keyword "FOREIGN KEY" :: tokens)) ∧
      ∀ rest, Cursor.alterClause ⟨add :: (h.lexemes ++ rest), stop⟩ =
        .ok ⟨options, h.constraint, h.tokens ++ clauseTokens 0 true (withoutLengths 0 rest)⟩ := by
  have next (ls : List Lexeme) : Cursor.alterClause ⟨add :: ls, stop⟩ =
      Cursor.addClause ⟨ls, stop⟩ := by
    simp [Cursor.alterClause, verb, Token.keyword?, Cursor.next]
  have keyed (rest : List Lexeme) := Cursor.atAnyKeyword_cons h.spelled
    (by decide : _ ∈ keyClauseWords) rest stop
  have constrained := h.constrained
  simp only [next, lexemes, List.append_assoc, List.cons_append, List.nil_append]
  generalize h.symbol = symbol, h.constraint = constraint at constrained
  cases constrained with
  | absent =>
      refine ⟨["ADD"], fun tokens => rfl, fun rest => ?_⟩
      rw [List.nil_append, Cursor.addClause_key h.spelled (by decide) (by decide),
        h.keyRemainder_append]
  | @bare l spelled =>
      refine ⟨["ADD", "CONSTRAINT"], fun tokens => rfl, fun rest => ?_⟩
      simp [Cursor.addClause, Cursor.keyword?, spelled, Token.keyword?, Cursor.next, keyed,
        h.keyRemainder_append]
  | @named l name ls spelled denoted unkeyed =>
      refine ⟨["ADD", "CONSTRAINT"], fun tokens => rfl, fun rest => ?_⟩
      obtain ⟨first, others, rfl, isName⟩ := denoted.exists_cons
      obtain ⟨_, firstName⟩ := Option.isSome_iff_exists.mp isName
      have unopened (more : List Lexeme) :
          Cursor.atPunct ⟨first :: (others ++ more), stop⟩ '(' = false :=
        (flat_of_name? firstName).1
      have unkeyed (more : List Lexeme) :
          Cursor.atAnyKeyword ⟨first :: (others ++ more), stop⟩ keyClauseWords = false := unkeyed
      have read (more : List Lexeme) : Cursor.name ⟨first :: (others ++ h.head :: more), stop⟩ =
          .ok (name, ⟨h.head :: more, stop⟩) :=
        Cursor.name_denoted denoted (by simp [Cursor.atPunct, h.spelled, Token.isPunct])
      simp [Cursor.addClause, Cursor.keyword?, spelled, Token.keyword?, Cursor.next, unopened,
        unkeyed, read, bind, Except.bind, pure, Except.pure, h.keyRemainder_append]

end ForeignKeyHead

/-! ## Columns -/

/-- The command that adds a column as a clause describes it, if the type is known. -/
def ColumnClause.command? (clause : ColumnClause) (column : String) : Option TableCommand :=
  (clause.typeName.bind (Declaration.of? · column clause.parameters)).map fun declaration =>
    .column declaration (modifierCalls clause.options) false

theorem parameterTexts_behindType {tokens : List Token} (closed : Token.Closed tokens)
    {last : Token} (flat : last.isPunct '(' = false) (rest : List Token) :
    (if (tokens ++ last :: rest).head?.any (·.isPunct '(') then
        parameterTexts (tokens ++ last :: rest) else []) =
      if tokens.head?.any (·.isPunct '(') then parameterTexts tokens else [] := by
  cases tokens with
  | nil => simp [flat]
  | cons first tokens =>
      cases opens : first.isPunct '(' with
      | false => simp [opens]
      | true =>
          have group : (first :: tokens).any (·.isPunct '(') = true := by simp [opens]
          rw [parameterTexts_append closed, if_pos group]
          rfl

/-- What is read of a column up to a word that is neither a type nor an option does not
    depend on what follows it. -/
theorem ColumnClause.scanFrom_append_cons {last : Token} (flat : last.isPunct '(' = false)
    (plain : ∀ word, last.keyword? = some word → ColumnMethod.isKnown word = false ∧
      Modifier.find? word = none ∧ absentModifiers.any (·.option == word) = false)
    {tokens : List Token} (closed : Token.Closed tokens) (clause : ColumnClause)
    (rest : List Token) :
    scanFrom clause (tokens ++ last :: rest) =
      scanFrom (scanFrom clause (tokens ++ [last])) rest := by
  have passed (clause : ColumnClause) (more : List Token) :
      scanFrom clause (last :: more) = scanFrom clause more := by
    rw [scanFrom]
    cases word : last.keyword? with
    | none => rfl
    | some word' =>
        obtain ⟨untyped, unmodified, present⟩ := plain word' word
        simp [untyped, unmodified, present]
  -- As the tokens are read; only a type looks ahead, at the group that follows it.
  fun_induction scanFrom clause tokens with
  | case1 clause => simp only [List.nil_append, passed, scanFrom]
  | case2 clause token tokens bare ih =>
      simp only [List.cons_append, scanFrom_cons _ bare]
      exact ih (closed.of_suffix (List.suffix_cons token tokens))
  | case3 clause token tokens word spelled typed parameters ih =>
      have later := closed.of_suffix (List.suffix_cons token tokens)
      simp only [List.cons_append, scanFrom, spelled, typed, if_true,
        parameterTexts_behindType later flat]
      exact ih later
  | case4 clause token word spelled untyped modifier found takes =>
      simp [scanFrom, spelled, untyped, found, takes]
  | case5 clause token word spelled untyped modifier found takes value tokens ih =>
      simp only [List.cons_append, scanFrom, spelled, untyped, found, takes]
      exact ih (closed.of_suffix ((List.suffix_cons value tokens).trans (List.suffix_cons token _)))
  | case6 clause token tokens word spelled untyped modifier found bare ih =>
      simp only [List.cons_append, scanFrom, spelled, untyped, found, bare]
      exact ih (closed.of_suffix (List.suffix_cons token tokens))
  | case7 clause token tokens word spelled untyped unmodified absent ih =>
      simp only [List.cons_append, scanFrom, spelled, untyped, unmodified, absent]
      exact ih (closed.of_suffix (List.suffix_cons token tokens))
  | case8 clause token tokens word spelled untyped unmodified other ih =>
      simp only [List.cons_append, scanFrom, spelled, untyped, unmodified, other]
      exact ih (closed.of_suffix (List.suffix_cons token tokens))

theorem Cursor.addClause_column {l : Lexeme} (flat : l.Flat) {others : List Lexeme}
    (unkeyed : atAnyKeyword ⟨l :: others, 0⟩ ("COLUMN" :: keyClauseWords) = false)
    (rest : List Lexeme) (stop : Nat) :
    addClause ⟨l :: rest, stop⟩ = columnClause ⟨l :: rest, stop⟩ ["ADD"] := by
  have unopened : atPunct ⟨l :: rest, stop⟩ '(' = false := flat.1
  cases token : l.token with
  | keyword word =>
      have unlisted : word ∉ "COLUMN" :: keyClauseWords := by
        intro listed
        have keyed := atAnyKeyword_cons token listed others 0
        rw [unkeyed] at keyed
        cases keyed
      have here : keyword? ⟨l :: rest, stop⟩ = some word := by
        simp [keyword?, token, Token.keyword?]
      have other : ¬(word = "INDEX" ∨ word = "KEY" ∨ word = "CONSTRAINT") := by
        rintro (rfl | rfl | rfl)
        · exact unlisted (by decide)
        · exact unlisted (by decide)
        · exact unlisted (by decide)
      rw [List.mem_cons, not_or] at unlisted
      simp [addClause, here, unlisted, other]
  | identifier | literal | punct =>
      simp [addClause, keyword?, token, Token.keyword?, unopened]

namespace ColumnHead

/-- The tokens of the definition behind the first word of the column's name, up to
    `REFERENCES`. -/
def tokens (h : ColumnHead) : List Token :=
  (remainder h.lexemes).tail

theorem flat_name (h : ColumnHead) : ∀ l ∈ h.name, l.Flat :=
  flat_of_denoted h.named

theorem closed_front (h : ColumnHead) : (h.name ++ h.middle).foldl depthAfter 0 = 0 := by
  rw [List.foldl_append, foldl_depthAfter_balanced (balanced_of_flat h.flat_name), h.closed]

theorem remainder_append (h : ColumnHead) (rest : List Lexeme) :
    remainder (h.lexemes ++ rest) = remainder h.lexemes ++ clauseTokens 0 true rest := by
  have flat := flat_of_keyword h.spelled
  have closed : h.lexemes.foldl depthAfter 0 = 0 := by
    rw [lexemes, ← List.append_assoc, List.foldl_append, h.closed_front, List.foldl_cons,
      depthAfter_flat flat, List.foldl_nil]
  have introduces : nameFollows false h.lexemes = true := by
    have reference : h.reference.introducesName = true := by
      rw [introducesName_keyword h.spelled]
      decide
    simp [nameFollows, lexemes, reference]
  rw [remainder, remainder, clauseTokens_append, closed, introduces]

theorem exists_namedRemainder (h : ColumnHead) :
    ∃ first, ∀ rest, namedRemainder (h.lexemes ++ rest) =
      .identifier first :: (h.tokens ++ clauseTokens 0 true rest) := by
  obtain ⟨l, others, name, isName⟩ := h.named.exists_cons
  obtain ⟨first, named⟩ := Option.isSome_iff_exists.mp isName
  have identifier : l.asIdentifier = .identifier first := by simp [asIdentifier, named]
  obtain ⟨ls, lexemes⟩ : ∃ ls, h.lexemes = l :: ls := ⟨_, by rw [lexemes, name]; rfl⟩
  have named (more : List Lexeme) :
      namedRemainder (l :: more) = l.asIdentifier :: (remainder (l :: more)).tail := rfl
  have nonempty : remainder h.lexemes ≠ [] := by
    rw [lexemes]
    exact List.cons_ne_nil _ _
  refine ⟨first, fun rest => ?_⟩
  rw [lexemes, List.cons_append, named, ← List.cons_append, ← lexemes, h.remainder_append,
    List.tail_append_of_ne_nil nonempty, identifier, tokens]

theorem scan_append (h : ColumnHead) (rest : List Token) :
    ColumnClause.scan (h.tokens ++ rest) = (ColumnClause.scan h.tokens).scanFrom rest := by
  -- The keyword may itself stand where a name is expected.
  let last := if nameFollows false (h.name ++ h.middle) then h.reference.asIdentifier
    else h.reference.token
  have all : h.tokens = (clauseTokens 0 false (h.name ++ h.middle)).tail ++ [last] := by
    have nonempty : clauseTokens 0 false (h.name ++ h.middle) ≠ [] := by
      obtain ⟨l, others, name, _⟩ := h.named.exists_cons
      rw [name]
      exact List.cons_ne_nil _ _
    rw [tokens, lexemes, ← List.append_assoc, remainder, clauseTokens_append, h.closed_front,
      clauseTokens_flat (flat_of_keyword h.spelled), List.tail_append_of_ne_nil nonempty]
    rfl
  have closed : Token.Closed (clauseTokens 0 false (h.name ++ h.middle)).tail :=
    (closed_clauseTokens h.closed_front false).of_suffix (List.tail_suffix _)
  have flat : last.isPunct '(' = false := by
    have reference := (flat_of_keyword h.spelled).1
    simp only [last]
    split
    · rwa [isPunct_asIdentifier]
    · exact reference
  have plain : ∀ word, last.keyword? = some word → ColumnMethod.isKnown word = false ∧
      Modifier.find? word = none ∧ absentModifiers.any (·.option == word) = false := by
    intro word spelled
    simp only [last] at spelled
    split at spelled
    · simp [keyword?_asIdentifier] at spelled
    · rw [h.spelled] at spelled
      cases spelled
      exact ⟨ColumnMethod.isKnown_eq_false (by simp [nameIntroducers]), by decide, by decide⟩
  rw [all, List.append_assoc, List.singleton_append, ColumnClause.scan,
    ColumnClause.scanFrom_append_cons flat plain closed]
  rfl

/-- The definition is added to a table. -/
inductive Added (h : ColumnHead) : List Lexeme → Prop where
  | bare {add : Lexeme} (verb : add.token = .keyword "ADD")
      (unkeyed : Cursor.atAnyKeyword ⟨h.name, 0⟩ ("COLUMN" :: keyClauseWords) = false) :
      Added h (add :: h.lexemes)
  | worded {add word : Lexeme} (verb : add.token = .keyword "ADD")
      (spelled : word.token = .keyword "COLUMN") : Added h (add :: word :: h.lexemes)

theorem columnClause_append (h : ColumnHead) (options : List String) (rest : List Lexeme)
    (stop : Nat) : Cursor.columnClause ⟨h.lexemes ++ rest, stop⟩ options =
      .ok ⟨options, some h.column, namedRemainder (h.lexemes ++ rest)⟩ := by
  rw [Cursor.columnClause, h.name_append]
  rfl

theorem Added.exists_options {h : ColumnHead} {front : List Lexeme} (added : h.Added front)
    (stop : Nat) :
    ∃ options,
      (∀ first tokens, AlterKind.classify? options (.identifier first :: tokens) =
        some (.addColumn, .identifier first :: tokens)) ∧
      ∀ rest, Cursor.alterClause ⟨front ++ rest, stop⟩ =
        .ok ⟨options, some h.column, namedRemainder (h.lexemes ++ rest)⟩ := by
  cases added with
  | bare verb unkeyed =>
      refine ⟨["ADD"], fun first tokens => rfl, fun rest => ?_⟩
      obtain ⟨l, others, name, isName⟩ := h.named.exists_cons
      obtain ⟨_, named⟩ := Option.isSome_iff_exists.mp isName
      obtain ⟨ls, lexemes⟩ : ∃ ls, h.lexemes = l :: ls := ⟨_, by rw [ColumnHead.lexemes, name]; rfl⟩
      rw [name] at unkeyed
      have column := Cursor.addClause_column (flat_of_name? named) unkeyed (ls ++ rest) stop
      rw [← List.cons_append, ← lexemes, h.columnClause_append] at column
      simp [Cursor.alterClause, verb, Token.keyword?, Cursor.next, column]
  | worded verb spelled =>
      refine ⟨["ADD", "COLUMN"], fun first tokens => rfl, fun rest => ?_⟩
      simp [Cursor.alterClause, verb, Token.keyword?, Cursor.next, Cursor.addClause,
        Cursor.keyword?, spelled, h.columnClause_append]

theorem effect?_append (h : ColumnHead) {options : List String}
    (classified : ∀ first tokens, AlterKind.classify? options (.identifier first :: tokens) =
      some (.addColumn, .identifier first :: tokens)) (rest : List Lexeme) (table : String) :
    (AlterOperation.mk options (some h.column) (namedRemainder (h.lexemes ++ rest))).effect? table =
      (((ColumnClause.scan h.tokens).scanFrom (clauseTokens 0 true rest)).command? h.column).map
        fun command => ⟨[command], .drop .dropColumn (.name h.column), table⟩ := by
  obtain ⟨first, tokens⟩ := h.exists_namedRemainder
  rw [AlterOperation.effect?, tokens, classified]
  simp only [AlterOperation.columnEffect?, Option.getD_some, h.scan_append, ColumnClause.command?]
  cases Option.bind _ (Declaration.of? · h.column _) with
  | none => rfl
  | some declaration => rfl

end ColumnHead

end TableShift
