import TableShift.Sql.Clause
import TableShift.Sql.Column
import TableShift.Sql.Lexeme.Lexer

/-! # Reading a script

A script is a list of statements between semicolons. Statements about tables are
read, all others are passed over; a malformed table statement is an error.
-/

namespace TableShift

namespace Cursor

/-- The fields of a table's body, one for each definition that declares something. -/
def definitions : List (List Lexeme) → Except SyntaxError (List Field)
  | [] => .ok []
  | part :: parts => do
    let field ← (ofSlice part).definition
    let fields ← definitions parts
    return field.toList ++ fields

/-- Reads what follows `CREATE TABLE`. -/
def createTable (c : Cursor) : Except SyntaxError CreateTable := do
  let (table, c) ← (c.skipKeyword "IF NOT EXISTS").name
  let (body, c) ← c.group
  let fields ← definitions (Lexeme.commaParts body)
  if fields.isEmpty then c.complain (.noDefinitions table)
  else return ⟨table, fields⟩

/-- The operations of an alteration, one for each clause. -/
def alterClauses : List (List Lexeme) → Except SyntaxError (List AlterOperation)
  | [] => .ok []
  | part :: parts => do
    let operation ← (ofSlice part).alterClause
    let operations ← alterClauses parts
    return operation :: operations

/-- Reads what follows `ALTER TABLE`. -/
def alterTable (c : Cursor) : Except SyntaxError AlterTable := do
  let (table, c) ← c.name
  let operations ← alterClauses (Lexeme.commaParts c.rest)
  if operations.isEmpty then c.complain (.noClauses table)
  else return ⟨table, operations⟩

theorem length_next_lt_of_name {c after : Cursor} {name : String}
    (h : c.name = .ok (name, after)) : after.next.rest.length < c.rest.length := by
  have := length_lt_of_name h
  simp only [next, List.length_tail]
  omega

/-- Reads names with commas between them. -/
def tableNames (c : Cursor) : Except SyntaxError (List String) :=
  match _hname : c.name with
  | .error e => .error e
  | .ok (name, after) =>
    if after.atPunct ',' then (tableNames after.next).map (name :: ·)
    else .ok [name]
termination_by c.rest.length
decreasing_by exact length_next_lt_of_name _hname

/-- A name, and after a comma the other names. -/
theorem tableNames_eq (c : Cursor) :
    c.tableNames = c.name >>= fun read =>
      if read.2.atPunct ',' then read.2.next.tableNames.map (read.1 :: ·) else .ok [read.1] := by
  rw [tableNames]
  split
  next failed => rw [failed]; rfl
  next read => rw [read]; rfl

/-- Reads what follows `DROP TABLE`. -/
def dropTable (c : Cursor) : Except SyntaxError DropTable := do
  let tables ← (c.skipKeyword "IF EXISTS").tableNames
  return ⟨tables⟩

/-- Reads a statement; the result is none if it is not about tables. -/
def statement (c : Cursor) : Except SyntaxError (Option Statement) :=
  if c.atKeyword "CREATE" then
    let c := c.next.skipKeyword "TEMPORARY"
    if c.atKeyword "TABLE" then c.next.createTable.map fun s => some (.create s) else .ok none
  else if c.atKeyword "ALTER" then
    let c := c.next.skipKeyword "IGNORE"
    if c.atKeyword "TABLE" then c.next.alterTable.map fun s => some (.alter s) else .ok none
  else if c.atKeyword "DROP" then
    let c := c.next.skipKeyword "TEMPORARY"
    if c.atKeyword "TABLE" then c.next.dropTable.map fun s => some (.drop s) else .ok none
  else .ok none

end Cursor

namespace Script

/-- The lexemes between semicolons; there is one more chunk than semicolons. -/
def chunks : List Lexeme → List (List Lexeme)
  | [] => [[]]
  | l :: ls =>
    if l.token.isPunct ';' then [] :: chunks ls
    else
      match chunks ls with
      | [] => [[l]]
      | chunk :: rest => (l :: chunk) :: rest

/-- The statements about tables among the chunks, up to the first error. -/
def statements : List (List Lexeme) → Except SyntaxError (List Statement)
  | [] => .ok []
  | chunk :: rest => do
    let statement ← (Cursor.ofSlice chunk).statement
    let found ← statements rest
    return statement.toList ++ found

/-- The statements about tables of a script. -/
def parse (script : String) : Except SyntaxError (List Statement) :=
  match Lexeme.tokenize script with
  | .ok lexemes => statements (chunks lexemes)
  | .error e => .error e

end Script

end TableShift
