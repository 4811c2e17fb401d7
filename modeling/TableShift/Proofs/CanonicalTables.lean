import TableShift.Proofs.CanonicalTokens
import TableShift.Proofs.ColumnReading
import TableShift.Proofs.KeyReading

/-! # Reading canonical statements

The text of a canonical statement is read as exactly the fields that were written. Each
definition belongs to one part of the table's body, since its commas stand in parentheses,
and each part is read as its field.
-/

namespace TableShift

namespace Canonical

open Lexeme

/-! ## Lists and groups -/

theorem separated_separate {parts : List (List Phrase)} (h : parts ≠ []) :
    Separated (parts.map (List.map Phrase.lexeme)) ((Phrase.separate parts).map Phrase.lexeme) := by
  induction parts with
  | nil => contradiction
  | cons part parts ih =>
      cases parts with
      | nil => exact .one _
      | cons next parts =>
          have later := ih (List.cons_ne_nil _ _)
          simp only [Phrase.separate, List.map_append, List.map_cons] at later ⊢
          exact .cons _ rfl later

theorem balanced_separate {parts : List (List Phrase)}
    (h : ∀ part ∈ parts, Solid (part.map Phrase.lexeme)) :
    Balanced ((Phrase.separate parts).map Phrase.lexeme) := by
  by_cases given : parts = []
  · rw [given]
    exact .nil
  · refine (separated_separate given).balanced ?_
    intro lexemes member
    obtain ⟨part, listed, rfl⟩ := List.mem_map.mp member
    exact (h part listed).balanced

theorem Phrase.mem_separate {parts : List (List Phrase)} {phrase : Phrase}
    (h : phrase ∈ separate parts) :
    (∃ part ∈ parts, phrase ∈ part) ∨ ∃ listed, phrase = mark ',' listed := by
  induction parts with
  | nil => contradiction
  | cons part parts ih =>
      cases parts with
      | nil => exact .inl ⟨part, List.mem_singleton_self part, h⟩
      | cons next parts =>
          rcases List.mem_append.mp h with first | later
          · exact .inl ⟨part, List.mem_cons_self, first⟩
          · rcases List.mem_cons.mp later with rfl | later
            · exact .inr ⟨_, rfl⟩
            · exact (ih later).imp_left fun ⟨part, listed, inside⟩ =>
                ⟨part, List.mem_cons_of_mem _ listed, inside⟩

theorem fit_separate {parts : List (List Phrase)} (h : ∀ part ∈ parts, Phrase.Fit part) :
    Phrase.Fit (Phrase.separate parts) := by
  induction parts with
  | nil => exact Phrase.fit_of_tail (by simp [Phrase.separate])
  | cons part parts ih =>
      rw [List.forall_mem_cons] at h
      cases parts with
      | nil => exact h.1
      | cons next parts =>
          have plain : (Phrase.mark ',' (by decide)).Plain := rfl
          exact plain.fit_append h.1 (ih h.2)

theorem fit_group {before inside : List Phrase} (h : Phrase.Fit before) (hi : Phrase.Fit inside) :
    Phrase.Fit (before ++ Phrase.group inside) := by
  have opening : (Phrase.mark '(' (by decide)).Plain := rfl
  have closing : (Phrase.mark ')' (by decide)).Plain := rfl
  exact opening.fit_append h (closing.fit_append hi (Phrase.fit_of_tail (by simp)))

/-! ## Lengths -/

theorem digitValue?_of_isDigit {c : Char} (digit : c.isDigit = true) :
    digitValue? 10 c = some (c.toNat - '0'.toNat) := by
  have range : 48 ≤ c.toNat ∧ c.toNat ≤ 57 := by
    simpa [Char.isDigit, UInt32.le_iff_toNat_le] using digit
  have small : c.toNat - 48 < 10 := by omega
  simp [digitValue?, digit, small]

theorem digitsValue?_of_isDigit {cs : List Char} (digits : ∀ c ∈ cs, c.isDigit = true) (acc : Nat) :
    digitsValue? 10 acc cs = some (Nat.ofDigitChars 10 cs acc) := by
  induction cs generalizing acc with
  | nil => rfl
  | cons c cs ih =>
      rw [List.forall_mem_cons] at digits
      simp only [digitsValue?, digitValue?_of_isDigit digits.1, ih digits.2, Nat.mul_comm acc 10]
      rfl

theorem length?_ofLength (n : UInt32) : length? (Numeral.ofLength n).text = some n := by
  have digits : ∀ c ∈ Nat.toDigits 10 n.toNat, c.isDigit = true := fun c member =>
    Nat.isDigit_of_mem_toDigits (by decide) (by decide) member
  have value := digitsValue?_of_isDigit digits 0
  rw [Nat.ofDigitChars_ten_toDigits] at value
  have bound : n.toNat < UInt32.size := n.toNat_lt
  simp only [length?, Numeral.ofLength, Nat.toString_eq_ofList_toDigits, String.toList_ofList]
  obtain ⟨c, cs, spelled⟩ := List.exists_cons_of_ne_nil (Nat.toDigits_ne_nil (n := n.toNat) (b := 10))
  rw [spelled] at digits value ⊢
  have unsigned : c ≠ '+' := Scan.ne_of_isDigit (digits c List.mem_cons_self) rfl
  simp [unsigned?, unsigned, value, bound]

/-! ## Definitions as they are read

A canonical definition is a special case of the definitions that are known to be read; its
form is that definition, at position zero throughout. -/

-- What a phrase carries of its word is stated once, and named in every form.

theorem Phrase.mem_opening : '(' ∈ ['(', ',', ')'] := by decide

theorem Phrase.mem_closing : ')' ∈ ['(', ',', ')'] := by decide

theorem Attribute.mem_keywords_default : "DEFAULT" ∈ keywords := by decide

theorem Attribute.mem_keywords_comment : "COMMENT" ∈ keywords := by decide

theorem Column.mem_keywords (c : Column) : c.type ∈ keywords :=
  List.mem_append_right _ c.known

theorem mem_keywords_references : "REFERENCES" ∈ keywords := by decide

theorem eventWord_mem (option : ReferenceOption) : eventWord option.event ∈ keywords := by
  cases option.event <;> decide

theorem actionWord_mem (option : ReferenceOption) : actionWord option.action ∈ keywords := by
  cases option.action <;> decide

def Name.form (given : Name) : NameSyntax :=
  ⟨(Phrase.name given).lexeme, given.text, rfl⟩

namespace Attribute

def form : Attribute → OptionSyntax
  | flag word listed =>
    .flag (Phrase.keyword word (mem_keywords_of_flag listed)).lexeme word rfl listed
  | named word listed given =>
    .valued (Phrase.keyword word (mem_keywords_of_named listed)).lexeme (Phrase.name given).lexeme
      word rfl (List.mem_cons_of_mem _ listed) (.identifier given.text)
  | default value =>
    .valued (Phrase.keyword "DEFAULT" mem_keywords_default).lexeme value.phrase.lexeme "DEFAULT" rfl
      (by decide) (by cases value <;> constructor)
  | comment text =>
    .comment (Phrase.keyword "COMMENT" mem_keywords_comment).lexeme (Phrase.string text).lexeme
      (.string text) rfl rfl

theorem lexemes_form (a : Attribute) : a.form.lexemes = a.phrases.map Phrase.lexeme := by
  cases a <;> rfl

theorem created?_form (a : Attribute) : a.form.created? = some a.option := by
  cases a with
  | default value => cases value <;> rfl
  | flag | named | comment => rfl

theorem ofType_option (a : Attribute) : a.option.ofType = typeWords.contains a.option.name := by
  cases a with
  | flag word listed =>
      have words : ∀ word ∈ flagWords,
          (ColumnOption.flag word).ofType = typeWords.contains word := by
        decide
      exact words word listed
  | named word listed given =>
      have words : ∀ word ∈ ["CHARACTER SET", "COLLATE"],
          OptionRole.ofKeyword word = .typeValue ∧ word ∈ typeWords := by
        decide
      simp [option, ColumnOption.ofType, ColumnOption.name, words word listed]
  | default | comment => rfl

end Attribute

namespace Column

def parameterForm (c : Column) : Option ParameterSyntax :=
  if given : c.parameters.isEmpty then none
  else some
    { opening := (Phrase.mark '(' Phrase.mem_opening).lexeme
      closing := (Phrase.mark ')' Phrase.mem_closing).lexeme
      parameters := c.parameters.map fun numeral => (Phrase.number numeral).lexeme
      inside := (Phrase.separate (c.parameters.map ([.number ·]))).map Phrase.lexeme
      opens := rfl
      closes := rfl
      single := by
        intro l member
        obtain ⟨numeral, _, rfl⟩ := List.mem_map.mp member
        exact ⟨List.cons_ne_nil _ _, .flat ⟨rfl, rfl⟩ .nil, by simp [Phrase.lexeme, Token.isPunct]⟩
      separated := by
        have separated := @separated_separate (c.parameters.map ([.number ·]))
          (by simpa using given)
        simp only [List.map_map] at separated ⊢
        exact .inr separated }

def form (c : Column) : ColumnSyntax where
  name := (Phrase.name c.name).lexeme
  column := c.name.text
  type := (Phrase.keyword c.type c.mem_keywords).lexeme
  typeName := c.type
  parameters := c.parameterForm
  options := c.attributes.map Attribute.form
  named := rfl
  unreserved := by simp [Phrase.lexeme]
  typed := rfl
  known := by
    have known : ∀ type ∈ columnMethods.map ColumnMethod.sqlType, ColumnMethod.isKnown type = true := by
      decide +kernel
    exact known c.type c.known

theorem lexemes_form (c : Column) : c.form.lexemes = c.phrases.map Phrase.lexeme := by
  have options : (c.attributes.map Attribute.form).flatMap OptionSyntax.lexemes =
      (c.attributes.flatMap Attribute.phrases).map Phrase.lexeme := by
    simp [List.flatMap_map, List.map_flatMap, Attribute.lexemes_form]
  have parameters : (c.parameterForm.map ParameterSyntax.lexemes).getD [] =
      c.parameterPhrases.map Phrase.lexeme := by
    by_cases given : c.parameters.isEmpty
    · simp [parameterForm, parameterPhrases, given]
    · simp [parameterForm, parameterPhrases, given, ParameterSyntax.lexemes, Phrase.group]
  simp only [ColumnSyntax.lexemes, ColumnSyntax.tail, form, options, parameters, phrases,
    List.map_cons, List.map_append]

theorem field_form (c : Column) : c.form.field = c.field := by
  have options : c.form.options.filterMap OptionSyntax.created? =
      c.attributes.map Attribute.option := by
    simp [form, List.filterMap_map, Attribute.created?_form]
  have parameters : c.form.createdParameters = c.parameters.map Numeral.text := by
    by_cases given : c.parameters.isEmpty
    · simp_all [ColumnSyntax.createdParameters, form, parameterForm]
    · simp [ColumnSyntax.createdParameters, form, parameterForm, given, Phrase.lexeme,
        Token.text, Token.toValue, Value.text]
  have sorts : ∀ option ∈ c.attributes.map Attribute.option,
      option.ofType = typeWords.contains option.name := by
    intro option member
    obtain ⟨a, _, rfl⟩ := List.mem_map.mp member
    exact a.ofType_option
  have others : ∀ option ∈ c.attributes.map Attribute.option,
      (!option.ofType) = !typeWords.contains option.name :=
    fun option member => congrArg not (sorts option member)
  simp only [ColumnSyntax.field, parameters, options, ColumnTail.ofOptions, field,
    List.filter_congr sorts, List.filter_congr others]
  rfl

theorem definition_phrases (c : Column) (stop : Nat) :
    Cursor.definition ⟨c.phrases.map Phrase.lexeme, stop⟩ = .ok (some c.field) := by
  rw [← c.lexemes_form, ← c.field_form]
  exact c.form.definition_lexemes stop

end Column

namespace KeyColumn

def form (c : KeyColumn) : KeyPart where
  column := c.name.form
  length := c.length.map fun n =>
    ⟨(Phrase.mark '(' Phrase.mem_opening).lexeme, (Phrase.number (.ofLength n)).lexeme,
      (Phrase.mark ')' Phrase.mem_closing).lexeme, (Numeral.ofLength n).text, rfl, rfl, rfl⟩

theorem lexemes_form (c : KeyColumn) : c.form.lexemes = c.phrases.map Phrase.lexeme := by
  cases given : c.length <;> simp [form, phrases, given, KeyPart.lexemes, LengthSyntax.lexemes,
    Phrase.group, Name.form]

theorem indexColumn_form (c : KeyColumn) : c.form.indexColumn = c.indexColumn := by
  cases given : c.length with
  | none => simp [form, indexColumn, given, KeyPart.indexColumn, Name.form]
  | some n =>
      have read : length? (Phrase.number (.ofLength n)).lexeme.raw = some n := length?_ofLength n
      simp [form, indexColumn, given, KeyPart.indexColumn, Name.form, read]

end KeyColumn

namespace Columns

def form (columns : Columns) : KeyColumns where
  opening := (Phrase.mark '(' Phrase.mem_opening).lexeme
  closing := (Phrase.mark ')' Phrase.mem_closing).lexeme
  parts := columns.parts.map KeyColumn.form
  inside := (Phrase.separate (columns.parts.map KeyColumn.phrases)).map Phrase.lexeme
  opens := rfl
  closes := rfl
  nonempty := by simpa using columns.nonempty
  separated := by
    have separated := @separated_separate (columns.parts.map KeyColumn.phrases)
      (by simpa using columns.nonempty)
    simpa [Function.comp_def, KeyColumn.lexemes_form] using separated

theorem lexemes_form (columns : Columns) :
    columns.form.lexemes = columns.phrases.map Phrase.lexeme := by
  simp [form, phrases, KeyColumns.lexemes, Phrase.group]

theorem indexColumns_form (columns : Columns) :
    columns.form.indexColumns = columns.parts.map KeyColumn.indexColumn := by
  simp [form, KeyColumns.indexColumns, KeyColumn.indexColumn_form]

theorem names_form (columns : Columns) :
    columns.form.names = columns.parts.map (·.name.text) := by
  simp [form, KeyColumns.names, KeyColumn.form, Name.form]

end Columns

def actionForm (option : ReferenceOption) : ActionSyntax where
  event := (Phrase.keyword (eventWord option.event) (eventWord_mem option)).lexeme
  eventWord := eventWord option.event
  action := (Phrase.keyword (actionWord option.action) (actionWord_mem option)).lexeme
  actionWord := actionWord option.action
  option := option
  eventSpelled := rfl
  actionSpelled := rfl
  isEvent := by cases option.event <;> rfl
  isAction := by cases option.action <;> rfl

def targetForm (table : Name) (targets : Columns) (actions : List ReferenceOption) :
    ReferenceSyntax where
  head := (Phrase.keyword "REFERENCES" mem_keywords_references).lexeme
  table := table.form
  columns := some targets.form
  actions := actions.map actionForm
  spelled := rfl

theorem lexemes_targetForm (table : Name) (targets : Columns) (actions : List ReferenceOption) :
    (targetForm table targets actions).lexemes =
      (Phrase.keyword "REFERENCES" (by decide) :: Phrase.name table ::
        (targets.phrases ++ actions.flatMap actionPhrases)).map Phrase.lexeme := by
  have listed : (actions.map actionForm).flatMap ActionSyntax.lexemes =
      (actions.flatMap actionPhrases).map Phrase.lexeme := by
    rw [List.flatMap_map, List.map_flatMap]
    rfl
  simp only [ReferenceSyntax.lexemes, ReferenceSyntax.tail, targetForm, Option.map_some,
    Option.getD_some, targets.lexemes_form, listed, List.map_cons, List.map_append]
  rfl

theorem target_targetForm (table : Name) (targets : Columns) (actions : List ReferenceOption) :
    (targetForm table targets actions).target =
      ⟨table.text, targets.parts.map (·.name.text), actions⟩ := by
  have options : (actions.map actionForm).map ActionSyntax.option = actions := by
    simp [Function.comp_def, actionForm]
  simp only [ReferenceSyntax.target, targetForm, Option.map_some, Option.getD_some,
    targets.names_form, options]
  rfl

namespace Definition

theorem definition_key (kind : KeyKind) (own : kind ≠ .foreign) (name : Option Name)
    (columns : Columns) (stop : Nat) :
    Cursor.definition ⟨(key kind own name columns).phrases.map Phrase.lexeme, stop⟩ =
      .ok (some (key kind own name columns).field) := by
  have declares : KeyKind.ofKeyword? kind.sql = some kind := by cases kind <;> rfl
  have listed : kind.sql ∈ keyClauseWords := by cases kind <;> decide
  have unconstrained : kind.sql ≠ "CONSTRAINT" := by cases kind <;> decide
  have spelled : (Phrase.keyword kind.sql (by cases kind <;> decide)).lexeme.token =
      .keyword kind.sql := rfl
  have clause := KeySyntax.keyClause_columns spelled declares (name.map Name.form) columns.form [] stop
  rw [if_neg own, List.append_nil, columns.lexemes_form, columns.indexColumns_form] at clause
  have lexemes : (key kind own name columns).phrases.map Phrase.lexeme =
      (Phrase.keyword kind.sql (by cases kind <;> decide)).lexeme ::
        (KeySyntax.nameLexemes (name.map Name.form) ++ columns.phrases.map Phrase.lexeme) := by
    cases name <;> simp [phrases, KeySyntax.nameLexemes, Name.form]
  have named : (name.map Name.form).map NameSyntax.name = name.map Name.text := by
    cases name <;> rfl
  rw [named] at clause
  rw [lexemes]
  exact KeySyntax.definition_key spelled listed unconstrained clause

theorem definition_phrases (d : Definition) (stop : Nat) :
    Cursor.definition ⟨d.phrases.map Phrase.lexeme, stop⟩ = .ok (some d.field) := by
  cases d with
  | column given => exact given.definition_phrases stop
  | key kind own name columns => exact definition_key kind own name columns stop
  | foreign constraint columns table targets actions =>
      have spelled : (Phrase.keyword "FOREIGN KEY" (by decide)).lexeme.token =
          .keyword "FOREIGN KEY" := rfl
      have clause := KeySyntax.keyClause_foreign spelled columns.form
        (targetForm table targets actions) stop
      rw [columns.lexemes_form, columns.indexColumns_form, lexemes_targetForm,
        target_targetForm, ← List.map_append] at clause
      cases constraint with
      | none => exact KeySyntax.definition_key spelled (by decide) (by decide) clause
      | some given =>
          exact KeySyntax.definition_constraint
            ⟨(Phrase.keyword "CONSTRAINT" (by decide)).lexeme, some given.form, rfl⟩ spelled
            (by decide) clause

end Definition

/-! ## Definitions in a list -/

def Phrase.Unmarked (phrase : Phrase) : Prop :=
  ∀ c, phrase.lexeme.token ≠ .punct c

theorem Phrase.unmarked_name (given : Name) : (name given).Unmarked := by
  intro c mark
  cases mark

theorem Phrase.unmarked_keyword {word : String} (listed : word ∈ keywords) :
    (keyword word listed).Unmarked := by
  intro c mark
  cases mark

theorem Phrase.Unmarked.solid_cons {phrase : Phrase} (unmarked : phrase.Unmarked)
    {ls : List Lexeme} (h : Solid ls) : Solid (phrase.lexeme :: ls) := by
  have other (c : Char) : phrase.lexeme.token.isPunct c = false := by
    cases token : phrase.lexeme.token with
    | punct mark => exact absurd token (unmarked mark)
    | keyword | identifier | literal => rfl
  exact .flat ⟨other '(', other ')'⟩ (other ',') h

/-- Phrases that can stand behind others in a part of a list: no comma outside groups cuts
    them, and none of them completes a keyword. -/
structure Calm (phrases : List Phrase) : Prop where
  solid : Solid (phrases.map Phrase.lexeme)
  quiet : ∀ phrase ∈ phrases, phrase.lexeme.token ≠ .keyword "INDEX"

namespace Calm

theorem nil : Calm [] :=
  ⟨.nil, by simp⟩

theorem append {before after : List Phrase} (hb : Calm before) (ha : Calm after) :
    Calm (before ++ after) where
  solid := by
    rw [List.map_append]
    exact hb.solid.append ha.solid
  quiet := List.forall_mem_append.mpr ⟨hb.quiet, ha.quiet⟩

theorem cons {phrase : Phrase} {phrases : List Phrase} (unmarked : phrase.Unmarked)
    (quiet : phrase.lexeme.token ≠ .keyword "INDEX") (h : Calm phrases) : Calm (phrase :: phrases) where
  solid := unmarked.solid_cons h.solid
  quiet := List.forall_mem_cons.mpr ⟨quiet, h.quiet⟩

theorem cons_name (given : Name) {phrases : List Phrase} (h : Calm phrases) :
    Calm (.name given :: phrases) :=
  .cons (Phrase.unmarked_name given) (by simp [Phrase.lexeme]) h

theorem cons_keyword {word : String} (listed : word ∈ keywords) (other : word ≠ "INDEX")
    {phrases : List Phrase} (h : Calm phrases) : Calm (.keyword word listed :: phrases) :=
  .cons (Phrase.unmarked_keyword listed) (by simpa [Phrase.lexeme] using other) h

theorem flatMap {α : Type} {items : List α} {phrases : α → List Phrase}
    (h : ∀ item ∈ items, Calm (phrases item)) : Calm (items.flatMap phrases) := by
  induction items with
  | nil => exact nil
  | cons item items ih =>
      rw [List.forall_mem_cons] at h
      exact h.1.append (ih h.2)

theorem group_separate {parts : List (List Phrase)} (h : ∀ part ∈ parts, Calm part) :
    Calm (Phrase.group (Phrase.separate parts)) where
  solid := by
    have inner := balanced_separate fun part listed => (h part listed).solid
    rw [Phrase.group, List.map_cons, List.map_append]
    exact .group rfl inner rfl .nil
  quiet := by
    intro phrase member index
    rcases List.mem_cons.mp member with rfl | member
    · cases index
    · rcases List.mem_append.mp member with inside | last
      · rcases Phrase.mem_separate inside with ⟨part, listed, within⟩ | ⟨listed, rfl⟩
        · exact (h part listed).quiet phrase within index
        · cases index
      · cases List.mem_singleton.mp last
        cases index

end Calm

theorem Attribute.calm (a : Attribute) : Calm a.phrases := by
  cases a with
  | flag word listed =>
      refine .cons_keyword _ ?_ .nil
      rintro rfl
      exact absurd listed (by decide)
  | named word listed given =>
      refine .cons_keyword _ ?_ (.cons_name given .nil)
      rintro rfl
      exact absurd listed (by decide)
  | default value =>
      refine .cons_keyword _ (by decide) (.cons ?_ ?_ .nil) <;>
        cases value <;> simp [DefaultValue.phrase, Phrase.Unmarked, Phrase.lexeme]
  | comment text =>
      refine .cons_keyword _ (by decide) (.cons ?_ ?_ .nil) <;>
        simp [Phrase.Unmarked, Phrase.lexeme]

theorem calm_number (numeral : Numeral) : Calm [.number numeral] := by
  refine .cons ?_ ?_ .nil <;> simp [Phrase.Unmarked, Phrase.lexeme]

theorem Column.calm_type (c : Column) : Calm c.phrases.tail := by
  have untyped : "INDEX" ∉ columnMethods.map ColumnMethod.sqlType := by decide
  have parameters : Calm c.parameterPhrases := by
    unfold parameterPhrases
    split
    · exact .nil
    · refine .group_separate ?_
      intro part member
      obtain ⟨numeral, _, rfl⟩ := List.mem_map.mp member
      exact calm_number numeral
  refine .cons_keyword _ ?_ (parameters.append (.flatMap fun a _ => a.calm))
  intro index
  exact untyped (index ▸ c.known)

theorem KeyColumn.calm (c : KeyColumn) : Calm c.phrases := by
  refine .cons_name c.name ?_
  cases c.length with
  | none => exact .nil
  | some n =>
      have single : ∀ part ∈ [[Phrase.number (.ofLength n)]], Calm part := by
        simpa using calm_number (.ofLength n)
      exact .group_separate single

theorem Columns.calm (columns : Columns) : Calm columns.phrases := by
  refine .group_separate ?_
  intro part member
  obtain ⟨c, _, rfl⟩ := List.mem_map.mp member
  exact c.calm

theorem calm_action (option : ReferenceOption) : Calm (actionPhrases option) := by
  refine .cons_keyword _ ?_ (.cons_keyword _ ?_ .nil)
  · cases option.event <;> decide
  · cases option.action <;> decide

namespace Definition

theorem exists_calm (d : Definition) :
    ∃ head rest, d.phrases = head :: rest ∧ head.Unmarked ∧ Calm rest := by
  cases d with
  | column given => exact ⟨_, _, rfl, Phrase.unmarked_name given.name, given.calm_type⟩
  | key kind own name columns =>
      -- Here alone the word may be `INDEX`; a comma or a parenthesis stands before it.
      refine ⟨_, _, rfl, Phrase.unmarked_keyword _, ?_⟩
      cases name with
      | none => exact columns.calm
      | some given => exact .cons_name given columns.calm
  | foreign constraint columns table targets actions =>
      have target : Calm (.keyword "REFERENCES" (by decide) :: .name table ::
          (targets.phrases ++ actions.flatMap actionPhrases)) :=
        .cons_keyword _ (by decide) (.cons_name table
          (targets.calm.append (.flatMap fun option _ => calm_action option)))
      cases constraint with
      | none => exact ⟨_, _, rfl, Phrase.unmarked_keyword _, columns.calm.append target⟩
      | some given =>
          exact ⟨_, _, rfl, Phrase.unmarked_keyword _,
            .cons_name given (.cons_keyword _ (by decide) (columns.calm.append target))⟩

theorem solid (d : Definition) : Solid (d.phrases.map Phrase.lexeme) := by
  obtain ⟨head, rest, whole, unmarked, calm⟩ := d.exists_calm
  rw [whole]
  exact unmarked.solid_cons calm.solid

theorem fit (d : Definition) : Phrase.Fit d.phrases := by
  obtain ⟨head, rest, whole, _, calm⟩ := d.exists_calm
  rw [whole]
  exact Phrase.fit_of_tail calm.quiet

theorem phrases_ne_nil (d : Definition) : d.phrases ≠ [] := by
  obtain ⟨head, rest, whole, _, _⟩ := d.exists_calm
  simp [whole]

end Definition

/-! ## Statements -/

theorem definitions_phrases (definitions : List Definition) :
    Cursor.definitions (definitions.map fun d => d.phrases.map Phrase.lexeme) =
      .ok (definitions.map Definition.field) := by
  induction definitions with
  | nil => rfl
  | cons d definitions ih =>
      have read : (Cursor.ofSlice (d.phrases.map Phrase.lexeme)).definition = .ok (some d.field) :=
        d.definition_phrases _
      simp only [List.map_cons, Cursor.definitions, read, ih]
      rfl

/-- The body of a table is read as its fields. -/
theorem definitions_separate {definitions : List Definition} (h : definitions ≠ []) :
    Cursor.definitions
        (commaParts ((Phrase.separate (definitions.map Definition.phrases)).map Phrase.lexeme)) =
      .ok (definitions.map Definition.field) := by
  have separated := @separated_separate (definitions.map Definition.phrases) (by simpa using h)
  rw [List.map_map] at separated
  rw [commaParts_solid separated, ← definitions_phrases]
  · rfl
  · intro part member
    obtain ⟨d, _, rfl⟩ := List.mem_map.mp member
    simpa using d.phrases_ne_nil
  · intro part member
    obtain ⟨d, _, rfl⟩ := List.mem_map.mp member
    exact d.solid

theorem createTable_phrases (table : Name) {definitions : List Definition} (h : definitions ≠ [])
    (stop : Nat) :
    Cursor.createTable ⟨(Phrase.name table ::
        Phrase.group (Phrase.separate (definitions.map Definition.phrases))).map Phrase.lexeme, stop⟩ =
      .ok ⟨table.text, definitions.map Definition.field⟩ := by
  generalize start : Cursor.mk ((Phrase.name table ::
    Phrase.group (Phrase.separate (definitions.map Definition.phrases))).map Phrase.lexeme) stop = c
  have always : c.skipKeyword "IF NOT EXISTS" = c := by rw [← start]; rfl
  have name : c.name = .ok (table.text, c.next) := by
    rw [← start]
    exact table.form.name_cons rfl
  have body := definitions_separate h
  have balanced : Balanced
      ((Phrase.separate (definitions.map Definition.phrases)).map Phrase.lexeme) := by
    refine balanced_separate ?_
    intro part member
    obtain ⟨d, _, rfl⟩ := List.mem_map.mp member
    exact d.solid
  have group : c.next.group =
      .ok ((Phrase.separate (definitions.map Definition.phrases)).map Phrase.lexeme, ⟨[], stop⟩) := by
    have read := @Cursor.group_balanced (Phrase.mark '(' (by decide)).lexeme
      (Phrase.mark ')' (by decide)).lexeme _ rfl balanced rfl [] stop
    rw [← start]
    simpa [Phrase.group, Cursor.next] using read
  have listed : (definitions.map Definition.field).isEmpty = false := by simpa using h
  simp only [Cursor.createTable, always, name, group, body, bind, Except.bind, listed,
    Bool.false_eq_true, if_false]
  rfl

theorem statement_create (table : Name) {definitions : List Definition} (h : definitions ≠ []) :
    (Cursor.ofSlice ((createPhrases table definitions).map Phrase.lexeme)).statement =
      .ok (some (.create ⟨table.text, definitions.map Definition.field⟩)) := by
  generalize start : Cursor.ofSlice ((createPhrases table definitions).map Phrase.lexeme) = c
  have create : c.atKeyword "CREATE" = true := by rw [← start]; rfl
  have permanent : c.next.skipKeyword "TEMPORARY" = c.next := by rw [← start]; rfl
  have tables : c.next.atKeyword "TABLE" = true := by rw [← start]; rfl
  have read : c.next.next.createTable = .ok ⟨table.text, definitions.map Definition.field⟩ := by
    rw [← start]
    exact createTable_phrases table h _
  simp only [Cursor.statement, create, permanent, tables, if_true, read]
  rfl

theorem tableNames_separate (table : Name) (tables : List Name) (stop : Nat) :
    Cursor.tableNames
        ⟨(Phrase.separate ((table :: tables).map ([.name ·]))).map Phrase.lexeme, stop⟩ =
      .ok ((table :: tables).map Name.text) := by
  induction tables generalizing table with
  | nil =>
      have name : Cursor.name ⟨[(Phrase.name table).lexeme], stop⟩ = .ok (table.text, ⟨[], stop⟩) :=
        table.form.name_cons rfl
      rw [Cursor.tableNames_eq]
      simp only [List.map_cons, List.map_nil, Phrase.separate, name]
      rfl
  | cons next tables ih =>
      generalize start : Cursor.mk
        ((Phrase.separate ((table :: next :: tables).map ([.name ·]))).map Phrase.lexeme) stop = c
      have name : c.name = .ok (table.text, c.next) := by
        rw [← start]
        exact table.form.name_cons rfl
      have comma : c.next.atPunct ',' = true := by rw [← start]; rfl
      have later : c.next.next.tableNames = .ok ((next :: tables).map Name.text) := by
        rw [← start]
        exact ih next
      rw [Cursor.tableNames_eq, name]
      simp only [bind, Except.bind, comma, if_true, later]
      rfl

theorem statement_drop {tables : List Name} (h : tables ≠ []) :
    (Cursor.ofSlice ((dropPhrases tables).map Phrase.lexeme)).statement =
      .ok (some (.drop ⟨tables.map Name.text⟩)) := by
  obtain ⟨table, tables, rfl⟩ := List.exists_cons_of_ne_nil h
  generalize start : Cursor.ofSlice ((dropPhrases (table :: tables)).map Phrase.lexeme) = c
  have noCreate : c.atKeyword "CREATE" = false := by rw [← start]; rfl
  have noAlter : c.atKeyword "ALTER" = false := by rw [← start]; rfl
  have drop : c.atKeyword "DROP" = true := by rw [← start]; rfl
  have permanent : c.next.skipKeyword "TEMPORARY" = c.next := by rw [← start]; rfl
  have kind : c.next.atKeyword "TABLE" = true := by rw [← start]; rfl
  have always : c.next.next.skipKeyword "IF EXISTS" = c.next.next := by
    rw [← start]
    cases tables <;> rfl
  have read : c.next.next.tableNames = .ok ((table :: tables).map Name.text) := by
    rw [← start]
    exact tableNames_separate table tables _
  simp only [Cursor.statement, noCreate, noAlter, drop, permanent, kind, Bool.false_eq_true, if_false,
    if_true, Cursor.dropTable, always, read]
  rfl

theorem fit_create (table : Name) (definitions : List Definition) :
    Phrase.Fit (createPhrases table definitions) := by
  have head : Phrase.Fit [.keyword "CREATE" (by decide), .keyword "TABLE" (by decide), .name table] :=
    Phrase.fit_of_tail (by simp [Phrase.lexeme])
  refine fit_group head (fit_separate ?_)
  intro part member
  obtain ⟨d, _, rfl⟩ := List.mem_map.mp member
  exact d.fit

theorem fit_drop (tables : List Name) : Phrase.Fit (dropPhrases tables) := by
  -- Behind the first word stand `TABLE`, names and commas.
  refine Phrase.fit_of_tail ?_
  intro phrase member index
  rcases List.mem_cons.mp member with rfl | member
  · simp [Phrase.lexeme] at index
  · rcases Phrase.mem_separate member with ⟨part, listed, inside⟩ | ⟨listed, rfl⟩
    · obtain ⟨table, _, rfl⟩ := List.mem_map.mp listed
      cases List.mem_singleton.mp inside
      cases index
    · cases index

/-- Canonical statements are read as they are written: the creation of a table as its
    fields, each with its own options in order, and a drop as its names. -/
theorem parse_canonical :
    (∀ (table : Name) (definitions : List Definition), definitions ≠ [] →
      Script.parse (written (createPhrases table definitions)) =
        .ok [.create ⟨table.text, definitions.map Definition.field⟩]) ∧
    ∀ tables : List Name, tables ≠ [] →
      Script.parse (written (dropPhrases tables)) = .ok [.drop ⟨tables.map Name.text⟩] := by
  constructor
  · intro table definitions nonempty
    exact parse_written (fit_create table definitions) (statement_create table nonempty)
  · intro tables nonempty
    exact parse_written (fit_drop tables) (statement_drop nonempty)

theorem parse_canonical_orders :
    Script.parse ("CREATE TABLE `my orders` ( `id` DOUBLE PRECISION ( 10 , 2 ) NOT NULL UNSIGNED " ++
        "DEFAULT -1.5 COMMENT 'it''s; -- \\\\' , INDEX ( `id` ( 7 ) ) , CONSTRAINT `,` " ++
        "FOREIGN KEY ( `id` ) REFERENCES `t(` ( `id` ) ON DELETE SET NULL )") =
      .ok [.create ⟨"my orders",
        [⟨some "id", some ⟨"DOUBLE PRECISION", ["10", "2"], [.flag "UNSIGNED"]⟩,
            [.flag "NOT NULL", .keyValue "DEFAULT" (.number "-1.5"),
              .keyValue "COMMENT" (.string "it's; -- \\")], none⟩,
          ⟨none, none, [], some ⟨.index, none, [⟨"id", some 7⟩], none⟩⟩,
          ⟨some ",", none, [], some ⟨.foreign, none, [⟨"id", none⟩],
            some ⟨"t(", ["id"], [⟨.onDelete, .setNull⟩]⟩⟩⟩]⟩] ∧
    Script.parse "DROP TABLE `a` , `b;`" = .ok [.drop ⟨["a", "b;"]⟩] := by
  have create := parse_canonical.1 ⟨"my orders", by decide⟩
    [.column ⟨⟨"id", by decide⟩, "DOUBLE PRECISION", by decide,
      [⟨"10", [], ['1', '0'], [], by decide, .inl rfl, by decide, by simp, .inl rfl⟩,
        ⟨"2", [], ['2'], [], by decide, .inl rfl, by decide, by simp, .inl rfl⟩],
      [.flag "NOT NULL" (by decide), .flag "UNSIGNED" (by decide),
        .default (.number ⟨"-1.5", ['-'], ['1'], ['.', '5'], by decide, .inr rfl, by decide,
          by simp, .inr ⟨['5'], rfl, by simp⟩⟩),
        .comment "it's; -- \\"]⟩,
      .key .index (by decide) none ⟨[⟨⟨"id", by decide⟩, some 7⟩], List.cons_ne_nil _ _⟩,
      .foreign (some ⟨",", by decide⟩) ⟨[⟨⟨"id", by decide⟩, none⟩], List.cons_ne_nil _ _⟩
        ⟨"t(", by decide⟩ ⟨[⟨⟨"id", by decide⟩, none⟩], List.cons_ne_nil _ _⟩ [⟨.onDelete, .setNull⟩]]
    (List.cons_ne_nil _ _)
  have drop := parse_canonical.2 [⟨"a", by decide⟩, ⟨"b;", by decide⟩] (List.cons_ne_nil _ _)
  constructor
  · refine (congrArg Script.parse ?_).trans (create.trans ?_)
    · decide +kernel
    · decide +kernel
  · exact (congrArg Script.parse (by decide +kernel)).trans drop

end Canonical

end TableShift
