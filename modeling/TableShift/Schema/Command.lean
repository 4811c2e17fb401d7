import TableShift.Draft
import TableShift.Schema.ColumnMethod
import TableShift.Schema.Modifier

/-! # Schema commands

What a migration does to a database, as values: commands on the schema, and inside
the alteration or creation of a table, commands on that table. Each command is
written as lines of code.
-/

namespace TableShift

/-- The method that declares a key of this kind. -/
def KeyKind.method : KeyKind → String
  | primary => "primary"
  | index => "index"
  | unique => "unique"
  | fullText => "fullText"
  | foreign => "foreign"

/-- Methods whose argument is one name or several. -/
inductive NameMethod where
  | references
  | dropColumn
  | dropIndex
  | dropUnique
  | dropFullText
  | dropForeign
  deriving Repr, DecidableEq, BEq

def NameMethod.method : NameMethod → String
  | references => "references"
  | dropColumn => "dropColumn"
  | dropIndex => "dropIndex"
  | dropUnique => "dropUnique"
  | dropFullText => "dropFullText"
  | dropForeign => "dropForeign"

/-- The method that takes a key of this kind away; a primary key has none. -/
def KeyKind.dropMethod? : KeyKind → Option NameMethod
  | primary => none
  | index => some .dropIndex
  | unique => some .dropUnique
  | fullText => some .dropFullText
  | foreign => some .dropForeign

/-- The call that declares a key; a key without a name has `null` for it. -/
def keyCode (kind : KeyKind) (columns : List String) (name : Option String) : String :=
  let name :=
    match name with
    | some name => quote name
    | none => "null"
  "$table->" ++ kind.method ++ "(" ++ quoteNames columns ++ ", " ++ name ++ ")"

namespace NameMethod

/-- The chained call of a method on names. -/
def chain (method : NameMethod) (names : List String) : String :=
  "->" ++ method.method ++ "(" ++ quoteNames names ++ ")"

/-- The call on the table with one name. -/
def onName (method : NameMethod) (name : String) : String :=
  "$table" ++ method.chain [name]

/-- The call on the table with a list of columns, from which the name of a key is
    derived. -/
def onColumns (method : NameMethod) (columns : List String) : String :=
  "$table->" ++ method.method ++ "(" ++ quoteList columns ++ ")"

end NameMethod

/-- The chained call that names the referenced table. -/
def onTableCode (table : String) : String :=
  "->on(" ++ quote table ++ ")"

def ReferenceEvent.method : ReferenceEvent → String
  | onDelete => "onDelete"
  | onUpdate => "onUpdate"

def ReferenceAction.words : ReferenceAction → String
  | restrict => "restrict"
  | cascade => "cascade"
  | setNull => "set null"
  | noAction => "no action"
  | setDefault => "set default"

/-- The chained call of a referential action. -/
def ReferenceOption.code (option : ReferenceOption) : String :=
  "->" ++ option.event.method ++ "(" ++ quote option.action.words ++ ")"

/-- The lines of a foreign key: the declaration, below it the referenced columns and
    table, and the actions at the end of the last line. -/
def foreignLines (columns : List String) (name : Option String) (target : Option References) :
    List Line :=
  let declaration : Line := ⟨0, keyCode .foreign columns name⟩
  match target with
  | none => Line.pushLast ";" [declaration]
  | some target =>
    let columnLine : List Line :=
      if target.columns.isEmpty then [] else [⟨1, NameMethod.references.chain target.columns⟩]
    let tableLine : List Line :=
      if target.table.isEmpty then [] else [⟨1, onTableCode target.table⟩]
    let actions := String.join (target.options.map ReferenceOption.code)
    Line.pushLast (actions ++ ";") (declaration :: columnLine ++ tableLine)

/-- What is taken away: something with a name, or the key on some columns. -/
inductive DropTarget where
  | name (name : String)
  | columns (columns : List String)
  deriving Repr, DecidableEq, BEq

inductive TableCommand where
  /-- Declares a column, or declares it anew. -/
  | column (declaration : Declaration) (modifiers : List ModifierCall) (change : Bool)
  /-- Declares a key. -/
  | key (kind : KeyKind) (columns : List String) (name : Option String)
  /-- Declares a foreign key. -/
  | foreign (columns : List String) (name : Option String) (target : Option References)
  /-- Takes something away. -/
  | drop (method : NameMethod) (target : DropTarget)
  /-- Renames the table. -/
  | rename (table : String)
  | renameColumn (old new : String)
  | renameIndex (old new : String)
  /-- Does nothing: a remark on what cannot be undone. -/
  | remark (operation target : String)
  deriving Repr, DecidableEq, BEq

/-- The remark on an operation that cannot be undone. -/
def remarkCode (operation target : String) : String :=
  "// Revert manually: " ++ operation ++ " " ++ target ++ " (previous definition unknown)"

namespace TableCommand

def lines : TableCommand → List Line
  | column declaration modifiers change =>
    let calls := modifiers.map ModifierCall.code ++ (if change then ["->change()"] else [])
    Line.pushLast ";" (⟨0, declaration.code⟩ :: calls.map fun call => ⟨1, call⟩)
  | key kind columns name => [⟨0, keyCode kind columns name ++ ";"⟩]
  | foreign columns name target => foreignLines columns name target
  | drop method (.name name) => [⟨0, method.onName name ++ ";"⟩]
  | drop method (.columns columns) => [⟨0, method.onColumns columns ++ ";"⟩]
  | rename table => [⟨0, "$table->rename(" ++ quote table ++ ");"⟩]
  | renameColumn old new =>
    [⟨0, "$table->renameColumn(" ++ quote old ++ ", " ++ quote new ++ ");"⟩]
  | renameIndex old new =>
    [⟨0, "$table->renameIndex(" ++ quote old ++ ", " ++ quote new ++ ");"⟩]
  | remark operation target => [⟨0, remarkCode operation target⟩]

end TableCommand

inductive SchemaCommand where
  /-- Creates a table. -/
  | create (table : String) (body : List TableCommand)
  /-- Alters a table. -/
  | alter (table : String) (body : List TableCommand)
  /-- Drops a table if it is there. -/
  | dropIfExists (table : String)
  /-- Does nothing: a remark on what cannot be undone. -/
  | remark (operation target : String)
  deriving Repr, DecidableEq, BEq

namespace SchemaCommand

/-- The lines of a block of commands on one table. -/
def blockLines (method table : String) (body : List TableCommand) : List Line :=
  ⟨0, "Schema::" ++ method ++ "(" ++ quote table ++ ", function (Blueprint $table) \x7b"⟩ ::
    Line.deeper 1 (body.flatMap TableCommand.lines) ++ [⟨0, "\x7d);"⟩]

def lines : SchemaCommand → List Line
  | create table body => blockLines "create" table body
  | alter table body => blockLines "table" table body
  | dropIfExists table => [⟨0, "Schema::dropIfExists(" ++ quote table ++ ");"⟩]
  | remark operation target => [⟨0, remarkCode operation target⟩]

end SchemaCommand

end TableShift
