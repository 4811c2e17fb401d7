import TableShift.Sql.Token

/-! # Table statements

What a script says about tables: creating one, altering one clause by clause,
dropping some. A clause of an alteration keeps its words as tokens; what the
clause does is read from them later.
-/

namespace TableShift

/-- An option of a column: a bare word, or a word with a value. -/
inductive ColumnOption where
  | flag (name : String)
  | keyValue (name : String) (value : Value)
  deriving Repr, DecidableEq, BEq, Inhabited

namespace ColumnOption

def name : ColumnOption → String
  | flag name | keyValue name _ => name

def value? : ColumnOption → Option Value
  | flag _ => none
  | keyValue _ value => some value

end ColumnOption

/-- A column type, such as `VARCHAR(50)` or `INT UNSIGNED`. -/
structure ColumnType where
  /-- Name in upper case. -/
  name : String
  parameters : List String := []
  options : List ColumnOption := []
  deriving Repr, DecidableEq, BEq, Inhabited

/-- What a key clause declares. -/
inductive KeyKind where
  | primary
  | index
  | unique
  | fullText
  | foreign
  deriving Repr, DecidableEq, BEq, Inhabited

/-- The keyword that introduces a key of this kind. -/
def KeyKind.sql : KeyKind → String
  | primary => "PRIMARY KEY"
  | index => "INDEX"
  | unique => "UNIQUE"
  | fullText => "FULLTEXT"
  | foreign => "FOREIGN KEY"

/-- A column of a key, with the length of its indexed beginning if given. -/
structure IndexColumn where
  name : String
  length : Option UInt32 := none
  deriving Repr, DecidableEq, BEq, Inhabited

/-- What a referential action reacts to. -/
inductive ReferenceEvent where
  | onDelete
  | onUpdate
  deriving Repr, DecidableEq, BEq, Inhabited

/-- What happens to referring rows. -/
inductive ReferenceAction where
  | restrict
  | cascade
  | setNull
  | noAction
  | setDefault
  deriving Repr, DecidableEq, BEq, Inhabited

def ReferenceEvent.ofKeyword? : String → Option ReferenceEvent
  | "ON DELETE" => some onDelete
  | "ON UPDATE" => some onUpdate
  | _ => none

def ReferenceAction.ofKeyword? : String → Option ReferenceAction
  | "RESTRICT" => some restrict
  | "CASCADE" => some cascade
  | "SET NULL" => some setNull
  | "NO ACTION" => some noAction
  | "SET DEFAULT" => some setDefault
  | _ => none

/-- An action such as `ON DELETE CASCADE`. -/
structure ReferenceOption where
  event : ReferenceEvent
  action : ReferenceAction
  deriving Repr, DecidableEq, BEq, Inhabited

/-- The target of a foreign key. -/
structure References where
  table : String
  columns : List String := []
  options : List ReferenceOption := []
  deriving Repr, DecidableEq, BEq, Inhabited

/-- A key, index or foreign key clause. -/
structure Key where
  kind : KeyKind
  name : Option String := none
  columns : List IndexColumn
  references : Option References := none
  deriving Repr, DecidableEq, BEq, Inhabited

/-- The names of a key's columns, in order. -/
def Key.columnNames (key : Key) : List String :=
  key.columns.map IndexColumn.name

/-- One entry of a table definition. A column has a name and a type, and a key if
    it declares one in place; a key clause has a key, and its constraint's name. -/
structure Field where
  name : Option String := none
  type : Option ColumnType := none
  options : List ColumnOption := []
  key : Option Key := none
  deriving Repr, DecidableEq, BEq, Inhabited

namespace Field

/-- The options of the type, then those of the column. -/
def mergedOptions (field : Field) : List ColumnOption :=
  (match field.type with
    | some type => type.options
    | none => []) ++ field.options

/-- Whether an option of this name stands at the type or at the column. -/
def hasOption (field : Field) (name : String) : Bool :=
  field.mergedOptions.any (·.name == name)

end Field

structure CreateTable where
  table : String
  fields : List Field
  deriving Repr, DecidableEq, BEq, Inhabited

/-- One clause of `ALTER TABLE`: its leading words, the column, index or
    constraint it is about, and its other tokens. -/
structure AlterOperation where
  options : List String
  field : Option String := none
  tokens : List Token := []
  deriving Repr, DecidableEq, BEq, Inhabited

structure AlterTable where
  table : String
  operations : List AlterOperation
  deriving Repr, DecidableEq, BEq, Inhabited

structure DropTable where
  tables : List String
  deriving Repr, DecidableEq, BEq, Inhabited

inductive Statement where
  | create (statement : CreateTable)
  | alter (statement : AlterTable)
  | drop (statement : DropTable)
  deriving Repr, DecidableEq, BEq, Inhabited

namespace Statement

/-- The table a statement is about; the first one if it drops several. -/
def table : Statement → String
  | create statement => statement.table
  | alter statement => statement.table
  | drop statement => statement.tables.headD ""

/-- The words a statement starts with. -/
def label : Statement → String
  | create _ => "CREATE TABLE"
  | alter _ => "ALTER TABLE"
  | drop _ => "DROP TABLE"

end Statement

end TableShift
