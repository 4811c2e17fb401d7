import TableShift.Proofs.ColumnSyntax
import TableShift.Proofs.TokenShapes

/-! # Canonical statements

Canonical statements create a table from columns and keys, or drop tables. Their text is a
row of phrases with single blanks between them: keywords in upper case, names in back
quotes, numerals, strings in single quotes, parentheses and commas. Each definition has one
text and stands for one field.
-/

namespace TableShift.Canonical

/-! ## Phrases -/

/-- A text that can stand between back quotes. -/
structure Name where
  text : String
  plain : Scan.backQuote ∉ text.toList

structure Numeral where
  text : String
  numeral : IsNumeral text.toList

/-- The keywords of canonical text; those of several words count as one. -/
def keywords : List String :=
  ["CREATE", "DROP", "TABLE", "UNSIGNED", "SIGNED", "ZEROFILL", "CHARACTER SET", "COLLATE",
    "NOT NULL", "NULL", "AUTO_INCREMENT", "DEFAULT", "COMMENT", "PRIMARY KEY", "INDEX", "UNIQUE",
    "FULLTEXT", "CONSTRAINT", "FOREIGN KEY", "REFERENCES", "ON DELETE", "ON UPDATE", "RESTRICT",
    "CASCADE", "SET NULL", "NO ACTION", "SET DEFAULT"] ++ columnMethods.map ColumnMethod.sqlType

inductive Phrase where
  | keyword (word : String) (listed : word ∈ keywords)
  | name (given : Name)
  | number (numeral : Numeral)
  | string (text : String)
  | mark (c : Char) (listed : c ∈ ['(', ',', ')'])

/-- A character of a string as it is written: quotes and backslashes are doubled. -/
def double (c : Char) : List Char :=
  if c = '\'' ∨ c = '\\' then [c, c] else [c]

/-- What stands in the text for a phrase. -/
def Phrase.text : Phrase → String
  | keyword word _ => word
  | name given => .ofList (Scan.backQuote :: (given.text.toList ++ [Scan.backQuote]))
  | number numeral => numeral.text
  | string text => .ofList ('\'' :: (text.toList.flatMap double ++ ['\'']))
  | mark c _ => .singleton c

/-- Phrases with single blanks between them. -/
def written (phrases : List Phrase) : String :=
  joinWith " " (phrases.map Phrase.text)

namespace Phrase

/-- Phrases in parentheses. -/
def group (inside : List Phrase) : List Phrase :=
  mark '(' (by decide) :: (inside ++ [mark ')' (by decide)])

/-- Lists of phrases with a comma between each two. -/
def separate : List (List Phrase) → List Phrase
  | [] => []
  | [part] => part
  | part :: parts => part ++ mark ',' (by decide) :: separate parts

end Phrase

/-! ## Definitions -/

/-- What a column can have as its default. -/
inductive DefaultValue where
  | number (numeral : Numeral)
  | string (text : String)
  | null
  | name (given : Name)

namespace DefaultValue

def phrase : DefaultValue → Phrase
  | number numeral => .number numeral
  | string text => .string text
  | null => .keyword "NULL" (by decide)
  | name given => .name given

def value : DefaultValue → Value
  | number numeral => .number numeral.text
  | string text => .string text
  | null => .null
  | name given => .expr given.text

end DefaultValue

inductive Attribute where
  /-- Such as `NOT NULL`. -/
  | flag (word : String) (listed : word ∈ flagWords)
  /-- Such as `COLLATE name`. -/
  | named (word : String) (listed : word ∈ ["CHARACTER SET", "COLLATE"]) (given : Name)
  | default (value : DefaultValue)
  | comment (text : String)

namespace Attribute

theorem mem_keywords_of_flag {word : String} (listed : word ∈ flagWords) : word ∈ keywords := by
  have words : ∀ word ∈ flagWords, word ∈ keywords := by decide
  exact words word listed

theorem mem_keywords_of_named {word : String} (listed : word ∈ ["CHARACTER SET", "COLLATE"]) :
    word ∈ keywords := by
  have words : ∀ word ∈ ["CHARACTER SET", "COLLATE"], word ∈ keywords := by decide
  exact words word listed

def phrases : Attribute → List Phrase
  | flag word listed => [.keyword word (mem_keywords_of_flag listed)]
  | named word listed given => [.keyword word (mem_keywords_of_named listed), .name given]
  | default value => [.keyword "DEFAULT" (by decide), value.phrase]
  | comment text => [.keyword "COMMENT" (by decide), .string text]

def option : Attribute → ColumnOption
  | flag word _ => .flag word
  | named word _ given => .keyValue word (.expr given.text)
  | default value => .keyValue "DEFAULT" value.value
  | comment text => .keyValue "COMMENT" (.string text)

end Attribute

/-- The options that belong to the type of a column. -/
def typeWords : List String :=
  ["UNSIGNED", "SIGNED", "ZEROFILL", "CHARACTER SET", "COLLATE"]

structure Column where
  name : Name
  type : String
  known : type ∈ columnMethods.map ColumnMethod.sqlType
  /-- The parameters of the type; without any, there are no parentheses. -/
  parameters : List Numeral
  attributes : List Attribute

namespace Column

def parameterPhrases (c : Column) : List Phrase :=
  if c.parameters.isEmpty then []
  else Phrase.group (Phrase.separate (c.parameters.map ([.number ·])))

def phrases (c : Column) : List Phrase :=
  .name c.name :: .keyword c.type (List.mem_append_right _ c.known) ::
    (c.parameterPhrases ++ c.attributes.flatMap Attribute.phrases)

/-- The field that the column is; its options keep their order. -/
def field (c : Column) : Field where
  name := some c.name.text
  type := some ⟨c.type, c.parameters.map Numeral.text,
    (c.attributes.map Attribute.option).filter (typeWords.contains ·.name)⟩
  options := (c.attributes.map Attribute.option).filter (!typeWords.contains ·.name)

end Column

def Numeral.ofLength (n : UInt32) : Numeral where
  text := toString n.toNat
  numeral := by
    rw [Nat.toString_eq_ofList_toDigits, String.toList_ofList]
    refine ⟨[], Nat.toDigits 10 n.toNat, [], by simp, .inl rfl, Nat.toDigits_ne_nil, ?_, .inl rfl⟩
    intro c member
    exact Nat.isDigit_of_mem_toDigits (by decide) (by decide) member

/-- A column of a key, with the length of its indexed beginning if given. -/
structure KeyColumn where
  name : Name
  length : Option UInt32

namespace KeyColumn

def phrases (c : KeyColumn) : List Phrase :=
  .name c.name :: (c.length.map fun n => Phrase.group [.number (.ofLength n)]).getD []

def indexColumn (c : KeyColumn) : IndexColumn :=
  ⟨c.name.text, c.length⟩

end KeyColumn

structure Columns where
  parts : List KeyColumn
  nonempty : parts ≠ []

def Columns.phrases (columns : Columns) : List Phrase :=
  Phrase.group (Phrase.separate (columns.parts.map KeyColumn.phrases))

def eventWord : ReferenceEvent → String
  | .onDelete => "ON DELETE"
  | .onUpdate => "ON UPDATE"

def actionWord : ReferenceAction → String
  | .restrict => "RESTRICT"
  | .cascade => "CASCADE"
  | .setNull => "SET NULL"
  | .noAction => "NO ACTION"
  | .setDefault => "SET DEFAULT"

def actionPhrases (option : ReferenceOption) : List Phrase :=
  [.keyword (eventWord option.event) (by cases option.event <;> decide),
    .keyword (actionWord option.action) (by cases option.action <;> decide)]

/-- An entry of a table's body. -/
inductive Definition where
  | column (given : Column)
  /-- A key with its columns, such as `UNIQUE name ( columns )`. -/
  | key (kind : KeyKind) (own : kind ≠ .foreign) (name : Option Name) (columns : Columns)
  /-- A foreign key, with the name of its constraint if it has one. -/
  | foreign (constraint : Option Name) (columns : Columns) (table : Name) (targets : Columns)
      (actions : List ReferenceOption)

namespace Definition

def phrases : Definition → List Phrase
  | column given => given.phrases
  | key kind _ name columns =>
    .keyword kind.sql (by cases kind <;> decide) ::
      ((name.map Phrase.name).toList ++ columns.phrases)
  | foreign constraint columns table targets actions =>
    (constraint.map fun name => [.keyword "CONSTRAINT" (by decide), .name name]).getD [] ++
      .keyword "FOREIGN KEY" (by decide) :: (columns.phrases ++
        .keyword "REFERENCES" (by decide) :: .name table ::
          (targets.phrases ++ actions.flatMap actionPhrases))

/-- The field that a definition is. -/
def field : Definition → Field
  | column given => given.field
  | key kind _ name columns =>
    { key := some ⟨kind, name.map Name.text, columns.parts.map KeyColumn.indexColumn, none⟩ }
  | foreign constraint columns table targets actions =>
    { name := constraint.map Name.text
      key := some ⟨.foreign, none, columns.parts.map KeyColumn.indexColumn,
        some ⟨table.text, targets.parts.map (·.name.text), actions⟩⟩ }

end Definition

/-! ## Statements -/

def createPhrases (table : Name) (definitions : List Definition) : List Phrase :=
  .keyword "CREATE" (by decide) :: .keyword "TABLE" (by decide) :: .name table ::
    Phrase.group (Phrase.separate (definitions.map Definition.phrases))

def dropPhrases (tables : List Name) : List Phrase :=
  .keyword "DROP" (by decide) :: .keyword "TABLE" (by decide) ::
    Phrase.separate (tables.map ([.name ·]))

end TableShift.Canonical
