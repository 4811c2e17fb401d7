import TableShift.Json
import TableShift.Sql.Statement

/-! # Statements in JSON

Each part of a statement is written as a record or as a tagged value, and read
back from it. Reading ignores members it does not know, takes a missing optional
member for none and a missing list of options for an empty one.
-/

namespace TableShift

/-! ## Writing -/

def tagJson (tag : String) (content : Json) : Json :=
  .obj [(tag, content)]

def Value.toJson : Value → Json
  | null => .str "Null"
  | number text => tagJson "Number" (.str text)
  | string text => tagJson "String" (.str text)
  | expr sql => tagJson "Expr" (.str sql)

def Token.toJson : Token → Json
  | keyword word => tagJson "Keyword" (.str word)
  | identifier name => tagJson "Identifier" (.str name)
  | literal value => tagJson "Literal" value.toJson
  | punct mark => tagJson "Punct" (.str (String.singleton mark))

def ColumnOption.toJson : ColumnOption → Json
  | flag name => tagJson "Flag" (.str name)
  | keyValue name value => tagJson "KeyValue" (.obj [("name", .str name), ("value", value.toJson)])

def ColumnType.toJson (type : ColumnType) : Json :=
  .obj [
    ("name", .str type.name),
    ("parameters", .ofList .str type.parameters),
    ("options", .ofList ColumnOption.toJson type.options)]

/-- The name of a kind of key in JSON. -/
def KeyKind.tag : KeyKind → String
  | primary => "PrimaryKey"
  | index => "Index"
  | unique => "Unique"
  | fullText => "FullText"
  | foreign => "ForeignKey"

def IndexColumn.toJson (column : IndexColumn) : Json :=
  .obj [("name", .str column.name), ("length", .ofOption (fun n => .ofNat n.toNat) column.length)]

/-- The name of an event in JSON. -/
def ReferenceEvent.tag : ReferenceEvent → String
  | onDelete => "OnDelete"
  | onUpdate => "OnUpdate"

/-- The name of an action in JSON. -/
def ReferenceAction.tag : ReferenceAction → String
  | restrict => "Restrict"
  | cascade => "Cascade"
  | setNull => "SetNull"
  | noAction => "NoAction"
  | setDefault => "SetDefault"

def ReferenceOption.toJson (option : ReferenceOption) : Json :=
  .obj [("event", .str option.event.tag), ("action", .str option.action.tag)]

def References.toJson (references : References) : Json :=
  .obj [
    ("table", .str references.table),
    ("columns", .ofList .str references.columns),
    ("options", .ofList ReferenceOption.toJson references.options)]

def Key.toJson (key : Key) : Json :=
  .obj [
    ("type", .str key.kind.tag),
    ("name", .ofOption .str key.name),
    ("columns", .ofList IndexColumn.toJson key.columns),
    ("references", .ofOption References.toJson key.references)]

def Field.toJson (field : Field) : Json :=
  .obj [
    ("name", .ofOption .str field.name),
    ("type", .ofOption ColumnType.toJson field.type),
    ("options", .ofList ColumnOption.toJson field.options),
    ("key", .ofOption Key.toJson field.key)]

def AlterOperation.toJson (operation : AlterOperation) : Json :=
  .obj [
    ("options", .ofList .str operation.options),
    ("field", .ofOption .str operation.field),
    ("unknown", .ofList Token.toJson operation.tokens)]

def Statement.toJson : Statement → Json
  | create statement =>
    tagJson "Create" (.obj [
      ("table", .str statement.table), ("fields", .ofList Field.toJson statement.fields)])
  | alter statement =>
    tagJson "Alter" (.obj [
      ("table", .str statement.table),
      ("altered", .ofList AlterOperation.toJson statement.operations)])
  | drop statement => tagJson "Drop" (.obj [("tables", .ofList .str statement.tables)])

/-! ## Reading -/

/-- The constant whose tag a value is. -/
def constantOfJson? {α : Type} (table : List (String × α)) (json : Json) : Option α :=
  match json.tagged? with
  | some (tag, content) =>
    if content.isNull then (table.find? (·.1 == tag)).map Prod.snd else none
  | none => none

def Value.ofJson? (json : Json) : Option Value :=
  match json.tagged? with
  | some ("Null", content) => if content.isNull then some .null else none
  | some ("Number", content) => content.str?.map .number
  | some ("String", content) => content.str?.map .string
  | some ("Expr", content) => content.str?.map .expr
  | _ => none

/-- The character that a text of length one holds. -/
def markOfText? (text : String) : Option Char :=
  match text.toList with
  | [c] => some c
  | _ => none

def Token.ofJson? (json : Json) : Option Token :=
  match json.tagged? with
  | some ("Keyword", content) => content.str?.map .keyword
  | some ("Identifier", content) => content.str?.map .identifier
  | some ("Literal", content) => (Value.ofJson? content).map .literal
  | some ("Punct", content) => (content.str?.bind markOfText?).map .punct
  | _ => none

/-- Reads an option. One with a value is written as an object, never as a list. -/
def ColumnOption.ofJson? (json : Json) : Option ColumnOption :=
  match json.tagged? with
  | some ("Flag", content) => content.str?.map .flag
  | some ("KeyValue", .obj members) => do
    let name ← (Json.obj members).required 0 "name" Json.str?
    let value ← (Json.obj members).required 1 "value" Value.ofJson?
    return .keyValue name value
  | _ => none

def ColumnType.ofJson? (json : Json) : Option ColumnType :=
  if json.isRecord 3 then do
    let name ← json.required 0 "name" Json.str?
    let parameters ← json.listed 1 "parameters" Json.str?
    let options ← json.listed 2 "options" ColumnOption.ofJson?
    return ⟨name, parameters, options⟩
  else none

/-- Every kind of key with its name in JSON. -/
def KeyKind.tags : List (String × KeyKind) :=
  [.primary, .index, .unique, .fullText, .foreign].map fun kind => (kind.tag, kind)

/-- Every event with its name in JSON. -/
def ReferenceEvent.tags : List (String × ReferenceEvent) :=
  [.onDelete, .onUpdate].map fun event => (event.tag, event)

/-- Every action with its name in JSON. -/
def ReferenceAction.tags : List (String × ReferenceAction) :=
  [.restrict, .cascade, .setNull, .noAction, .setDefault].map fun action => (action.tag, action)

/-- An unsigned number of 32 bits. -/
def wordOfJson? (json : Json) : Option UInt32 :=
  (json.natBelow? UInt32.size).map UInt32.ofNat

def IndexColumn.ofJson? (json : Json) : Option IndexColumn :=
  if json.isRecord 2 then do
    let name ← json.required 0 "name" Json.str?
    let length ← json.nullable 1 "length" wordOfJson?
    return ⟨name, length⟩
  else none

def ReferenceOption.ofJson? (json : Json) : Option ReferenceOption :=
  if json.isRecord 2 then do
    let event ← json.required 0 "event" (constantOfJson? ReferenceEvent.tags)
    let action ← json.required 1 "action" (constantOfJson? ReferenceAction.tags)
    return ⟨event, action⟩
  else none

def References.ofJson? (json : Json) : Option References :=
  if json.isRecord 3 then do
    let table ← json.required 0 "table" Json.str?
    let columns ← json.required 1 "columns" (Json.list? Json.str?)
    let options ← json.listed 2 "options" ReferenceOption.ofJson?
    return ⟨table, columns, options⟩
  else none

def Key.ofJson? (json : Json) : Option Key :=
  if json.isRecord 4 then do
    let kind ← json.required 0 "type" (constantOfJson? KeyKind.tags)
    let name ← json.nullable 1 "name" Json.str?
    let columns ← json.required 2 "columns" (Json.list? IndexColumn.ofJson?)
    let references ← json.nullable 3 "references" References.ofJson?
    return ⟨kind, name, columns, references⟩
  else none

def Field.ofJson? (json : Json) : Option Field :=
  if json.isRecord 4 then do
    let name ← json.nullable 0 "name" Json.str?
    let type ← json.nullable 1 "type" ColumnType.ofJson?
    let options ← json.listed 2 "options" ColumnOption.ofJson?
    let key ← json.nullable 3 "key" Key.ofJson?
    return ⟨name, type, options, key⟩
  else none

def AlterOperation.ofJson? (json : Json) : Option AlterOperation :=
  if json.isRecord 3 then do
    let options ← json.required 0 "options" (Json.list? Json.str?)
    let field ← json.nullable 1 "field" Json.str?
    let tokens ← json.listed 2 "unknown" Token.ofJson?
    return ⟨options, field, tokens⟩
  else none

def CreateTable.ofJson? (json : Json) : Option CreateTable :=
  if json.isRecord 2 then do
    let table ← json.required 0 "table" Json.str?
    let fields ← json.required 1 "fields" (Json.list? Field.ofJson?)
    return ⟨table, fields⟩
  else none

def AlterTable.ofJson? (json : Json) : Option AlterTable :=
  if json.isRecord 2 then do
    let table ← json.required 0 "table" Json.str?
    let operations ← json.required 1 "altered" (Json.list? AlterOperation.ofJson?)
    return ⟨table, operations⟩
  else none

def DropTable.ofJson? (json : Json) : Option DropTable :=
  if json.isRecord 1 then do
    let tables ← json.required 0 "tables" (Json.list? Json.str?)
    return ⟨tables⟩
  else none

def Statement.ofJson? (json : Json) : Option Statement :=
  match json.tagged? with
  | some ("Create", content) => (CreateTable.ofJson? content).map .create
  | some ("Alter", content) => (AlterTable.ofJson? content).map .alter
  | some ("Drop", content) => (DropTable.ofJson? content).map .drop
  | _ => none

end TableShift
