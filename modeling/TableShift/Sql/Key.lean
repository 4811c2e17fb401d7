import TableShift.Sql.Cursor
import TableShift.Text.Numeral

/-! # Reading key clauses

`PRIMARY KEY`, `INDEX`, `UNIQUE` and `FULLTEXT` clauses name the columns of a
key; a `FOREIGN KEY` clause also names what it refers to. Other constraints are
passed over.
-/

namespace TableShift

/-- The keywords that open a key clause, and so cannot open a column. -/
def keyClauseWords : List String := [
  "CONSTRAINT", "PRIMARY KEY", "INDEX", "KEY", "UNIQUE", "UNIQUE INDEX", "UNIQUE KEY",
  "FULLTEXT", "FULLTEXT INDEX", "FULLTEXT KEY", "FOREIGN KEY", "CHECK", "SPATIAL"]

/-- The kind of key that a keyword declares. -/
def KeyKind.ofKeyword? : String → Option KeyKind
  | "PRIMARY KEY" => some primary
  | "INDEX" | "KEY" => some index
  | "UNIQUE" | "UNIQUE INDEX" | "UNIQUE KEY" => some unique
  | "FULLTEXT" | "FULLTEXT INDEX" | "FULLTEXT KEY" => some fullText
  | "FOREIGN KEY" => some foreign
  | _ => none

namespace Cursor

/-- Reads one part of a key: a column, and the length in parentheses after it. What
    follows is passed over. -/
def indexColumn (c : Cursor) : Except SyntaxError IndexColumn := do
  let (name, c) ← c.name
  if c.atPunct '(' then
    let (inside, _) ← c.group
    return ⟨name, inside.head?.bind (length? ·.raw)⟩
  else return ⟨name, none⟩

/-- The columns of a list in parentheses, one for each part. -/
def indexColumns : List (List Lexeme) → Except SyntaxError (List IndexColumn)
  | [] => .ok []
  | part :: parts => do
    let column ← (ofSlice part).indexColumn
    let columns ← indexColumns parts
    return column :: columns

/-- Reads the referential actions that follow a referenced table. -/
def referenceOptionsFrom (stop : Nat) :
    List Lexeme → Except SyntaxError (List ReferenceOption × List Lexeme)
  | [] => .ok ([], [])
  | l :: ls =>
    match l.token.keyword?.bind ReferenceEvent.ofKeyword? with
    | none => .ok ([], l :: ls)
    | some event =>
      match ls with
      | [] => .error ⟨stop, .expectedAction⟩
      | word :: ls =>
        match word.token.keyword?.bind ReferenceAction.ofKeyword? with
        | none => .error ⟨word.start, .expectedAction⟩
        | some action => do
          let (options, rest) ← referenceOptionsFrom stop ls
          return (⟨event, action⟩ :: options, rest)

/-- Reads the target of a foreign key: a table, its columns and the actions. -/
def references (c : Cursor) : Except SyntaxError (References × Cursor) := do
  let c ← c.expectKeyword "REFERENCES"
  let (table, c) ← c.name
  let (columns, c) ←
    if c.atPunct '(' then do
      let (inside, c) ← c.group
      let columns ← indexColumns (Lexeme.commaParts inside)
      pure (columns.map IndexColumn.name, c)
    else pure ([], c)
  let (options, rest) ← referenceOptionsFrom c.stop c.rest
  return (⟨table, columns, options⟩, { c with rest })

/-- Reads the name of a key, if one stands before its columns. -/
def keyName (c : Cursor) : Except SyntaxError (Option String × Cursor) :=
  if c.atPunct '(' then .ok (none, c)
  else do
    let (name, c) ← c.name
    return (some name, c)

/-- Reads a key clause; the result is none for a constraint that declares no key. -/
def keyClause (c : Cursor) : Except SyntaxError (Option Key) :=
  match c.keyword? with
  | none => c.complain .expectedKey
  | some word =>
    match KeyKind.ofKeyword? word with
    | none => .ok none
    | some kind => do
      let (name, c) ← c.next.keyName
      let (inside, c) ← c.group
      let columns ← indexColumns (Lexeme.commaParts inside)
      if columns.isEmpty then c.complain (.noKeyColumns kind)
      else if kind = .foreign then
        let (target, _) ← c.references
        return some ⟨kind, name, columns, some target⟩
      else return some ⟨kind, name, columns, none⟩

end Cursor

end TableShift
