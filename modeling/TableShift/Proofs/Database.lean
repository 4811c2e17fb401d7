import Mathlib.Data.Finset.Basic
import TableShift.Schema.Command

/-! # Databases that migrations act on

A database is abstract: a table has a set of column names, a set of indexes and a
set of foreign keys. A key is told by its name, or by its kind and columns if it has
none. What a migration does to it is a list of acts, which apply or conflict with what
is there; acts apply in order, and one conflict is a conflict of all of them.
-/

namespace TableShift

/-- What tells a key from the other keys of its table. -/
inductive KeyId where
  | named (name : String)
  | unnamed (kind : KeyKind) (columns : List String)
  deriving DecidableEq

/-- The identity of a key that is declared with or without a name. -/
def KeyId.ofName (kind : KeyKind) (columns : List String) : Option String → KeyId
  | some name => named name
  | none => unnamed kind columns

/-- A table of an abstract database. -/
structure TableState where
  columns : Finset String := ∅
  indexes : Finset KeyId := ∅
  foreignKeys : Finset KeyId := ∅
  deriving DecidableEq

/-- The tables by name. -/
abbrev Database := String → Option TableState

/-! ## Changes of a set of names -/

section Names

variable {α : Type} [DecidableEq α]

/-- Adds a name that is not there yet. -/
def addFresh (a : α) (s : Finset α) : Option (Finset α) :=
  if a ∈ s then none else some (insert a s)

/-- Takes away a name that is there. -/
def removePresent (a : α) (s : Finset α) : Option (Finset α) :=
  if a ∈ s then some (s.erase a) else none

/-- Puts a name that is not there yet in the place of one that is. -/
def renamePresent (old new : α) (s : Finset α) : Option (Finset α) :=
  if old ∈ s ∧ new ∉ s then some (insert new (s.erase old)) else none

end Names

/-! ## Changes of a table -/

namespace TableState

def inColumns (change : Finset String → Option (Finset String)) (t : TableState) :
    Option TableState :=
  (change t.columns).map fun columns => { t with columns }

def inIndexes (change : Finset KeyId → Option (Finset KeyId)) (t : TableState) :
    Option TableState :=
  (change t.indexes).map fun indexes => { t with indexes }

def inForeignKeys (change : Finset KeyId → Option (Finset KeyId)) (t : TableState) :
    Option TableState :=
  (change t.foreignKeys).map fun foreignKeys => { t with foreignKeys }

/-- Changes the keys of a kind: foreign keys have names of their own. -/
def inKeys (kind : KeyKind) (change : Finset KeyId → Option (Finset KeyId)) (t : TableState) :
    Option TableState :=
  match kind with
  | .foreign => t.inForeignKeys change
  | _ => t.inIndexes change

end TableState

/-! ## Blocks -/

/-- A block of acts under way: the name its table has by now, and the database. -/
structure Block where
  table : String
  database : Database

namespace Block

/-- Changes the block's table in place. -/
def onTable (change : TableState → Option TableState) (b : Block) : Option Block :=
  ((b.database b.table).bind change).map fun t =>
    { b with database := Function.update b.database b.table (some t) }

/-- Gives the block's table a name that no table has. The block goes on with it under
    the new name. -/
def rename (new : String) (b : Block) : Option Block :=
  match b.database b.table, b.database new with
  | some t, none =>
    some ⟨new, Function.update (Function.update b.database b.table none) new (some t)⟩
  | _, _ => none

end Block

/-! ## Acts -/

/-- What a statement does to its table. -/
inductive TableAct where
  | addColumn (column : String)
  /-- Declares a column that is there anew. -/
  | changeColumn (column : String)
  | addKey (kind : KeyKind) (key : KeyId)
  | dropColumns (columns : List String)
  | dropKey (kind : KeyKind) (key : KeyId)
  | rename (table : String)
  | renameColumn (old new : String)
  | renameIndex (old new : String)
  deriving DecidableEq

namespace TableAct

/-- What an act does to the table it is about, unless it gives it another name. -/
def change : TableAct → TableState → Option TableState
  | addColumn column, t => t.inColumns (addFresh column)
  | changeColumn column, t => if column ∈ t.columns then some t else none
  | addKey kind key, t => t.inKeys kind (addFresh key)
  | dropColumns columns, t => t.inColumns fun s => columns.foldlM (fun s c => removePresent c s) s
  | dropKey kind key, t => t.inKeys kind (removePresent key)
  | renameColumn old new, t => t.inColumns (renamePresent old new)
  | renameIndex old new, t => t.inIndexes (renamePresent (.named old) (.named new))
  | rename _, t => some t

/-- What an act does in a block. -/
def apply : TableAct → Block → Option Block
  | rename new, b => b.rename new
  | act, b => b.onTable act.change

theorem apply_rename (new : String) (b : Block) : (rename new).apply b = b.rename new := rfl

/-- The name of the table after the renames among some acts. -/
def tableAfter (table : String) : List TableAct → String
  | [] => table
  | rename new :: acts => tableAfter new acts
  | _ :: acts => tableAfter table acts

end TableAct

/-- What acts do in a block, one after the other. -/
def Block.run (b : Block) (acts : List TableAct) : Option Block :=
  acts.foldlM (fun b act => act.apply b) b

@[simp]
theorem Block.run_nil (b : Block) : b.run [] = some b := rfl

@[simp]
theorem Block.run_cons (b : Block) (act : TableAct) (acts : List TableAct) :
    b.run (act :: acts) = (act.apply b).bind (·.run acts) := rfl

theorem Block.run_append (b : Block) (first second : List TableAct) :
    b.run (first ++ second) = (b.run first).bind (·.run second) :=
  List.foldlM_append

/-- What a call on the schema does to a database. -/
inductive SchemaAct where
  | create (table : String) (body : List TableAct)
  | alter (table : String) (body : List TableAct)
  | dropIfExists (table : String)
  deriving DecidableEq

namespace SchemaAct

/-- A table is created empty and then filled. -/
def apply : SchemaAct → Database → Option Database
  | create table body, db =>
    match db table with
    | some _ => none
    | none => ((Block.mk table (Function.update db table (some {}))).run body).map Block.database
  | alter table body, db =>
    match db table with
    | some _ => ((Block.mk table db).run body).map Block.database
    | none => none
  | dropIfExists table, db => some (Function.update db table none)

end SchemaAct

/-- What acts do to a database, one after the other. -/
def Database.run (db : Database) (acts : List SchemaAct) : Option Database :=
  acts.foldlM (fun db act => act.apply db) db

@[simp]
theorem Database.run_nil (db : Database) : db.run [] = some db := rfl

@[simp]
theorem Database.run_cons (db : Database) (act : SchemaAct) (acts : List SchemaAct) :
    db.run (act :: acts) = (act.apply db).bind (·.run acts) := rfl

theorem Database.run_append (db : Database) (first second : List SchemaAct) :
    db.run (first ++ second) = (db.run first).bind (·.run second) :=
  List.foldlM_append

/-! ## The acts of commands -/

/-- The names that a key is declared on, as they are written: none is the empty name. -/
def writtenNames : List String → List String
  | [] => [""]
  | names => names

namespace DropTarget

/-- The key of a kind that a drop is aimed at. -/
def keyId (kind : KeyKind) : DropTarget → KeyId
  | .name known => .named known
  | .columns list => .unnamed kind list

/-- The columns that a drop is aimed at. -/
def columnNames : DropTarget → List String
  | .name known => [known]
  | .columns list => list

end DropTarget

/-- What a method that takes something away does. -/
def NameMethod.acts (method : NameMethod) (target : DropTarget) : List TableAct :=
  match method with
  | references => []
  | dropColumn => [.dropColumns target.columnNames]
  | dropIndex => [.dropKey .index (target.keyId .index)]
  | dropUnique => [.dropKey .unique (target.keyId .unique)]
  | dropFullText => [.dropKey .fullText (target.keyId .fullText)]
  | dropForeign => [.dropKey .foreign (target.keyId .foreign)]

/-- What a command does to its table; a remark does nothing. -/
def TableCommand.acts : TableCommand → List TableAct
  | column declaration _ change =>
    [if change then .changeColumn declaration.column else .addColumn declaration.column]
  | key kind columns name => [.addKey kind (.ofName kind (writtenNames columns) name)]
  | foreign columns name _ => [.addKey .foreign (.ofName .foreign (writtenNames columns) name)]
  | drop method target => method.acts target
  | rename table => [.rename table]
  | renameColumn old new => [.renameColumn old new]
  | renameIndex old new => [.renameIndex old new]
  | remark _ _ => []

/-- What a command does to a database; a remark does nothing. -/
def SchemaCommand.acts : SchemaCommand → List SchemaAct
  | create table body => [.create table (body.flatMap TableCommand.acts)]
  | alter table body => [.alter table (body.flatMap TableCommand.acts)]
  | dropIfExists table => [.dropIfExists table]
  | remark _ _ => []

end TableShift
