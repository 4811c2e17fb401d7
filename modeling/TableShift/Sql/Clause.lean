import TableShift.Sql.Key

/-! # Reading the clauses of an alteration

A clause begins with a verb. What follows is kept as tokens: words that stand
where a name stands become identifiers, even if they are keywords elsewhere.
-/

namespace TableShift

namespace Lexeme

/-- The keywords after which the next word is a name. -/
def nameIntroducers : List String := ["AFTER", "TO", "AS", "REFERENCES"]

/-- Whether the next word after a lexeme is a name. -/
def introducesName (l : Lexeme) : Bool :=
  nameIntroducers.any (l.token.isKeyword ·)

/-- The tokens of a clause, `depth` parentheses deep. Inside parentheses, and where a
    name follows, words are identifiers. -/
def clauseTokens (depth : Nat) (nameFollows : Bool) : List Lexeme → List Token
  | [] => []
  | l :: ls =>
    let token := if 0 < depth || nameFollows then l.asIdentifier else l.token
    token :: clauseTokens (depthAfter depth l) l.introducesName ls

/-- The tokens of the rest of a clause. -/
def remainder (ls : List Lexeme) : List Token :=
  clauseTokens 0 false ls

/-- The tokens of the rest of a clause that starts with a name. -/
def namedRemainder (ls : List Lexeme) : List Token :=
  match ls, remainder ls with
  | l :: _, _ :: tokens => l.asIdentifier :: tokens
  | _, tokens => tokens

/-- The lexemes of a key clause without the lengths in its column lists, `depth`
    parentheses deep. -/
def withoutLengths (depth : Nat) : List Lexeme → List Lexeme
  | [] => []
  | l :: ls =>
    if l.token.isPunct '(' then
      if depth = 0 then l :: withoutLengths 1 ls else withoutLengths (depth + 1) ls
    else if l.token.isPunct ')' then
      if depth ≤ 1 then l :: withoutLengths 0 ls else withoutLengths (depth - 1) ls
    else if depth ≤ 1 then l :: withoutLengths depth ls
    else withoutLengths depth ls

/-- The tokens of the rest of a key clause, without lengths. -/
def keyRemainder (ls : List Lexeme) : List Token :=
  remainder (withoutLengths 0 ls)

end Lexeme

namespace Cursor

/-- Reads a column definition: its name is the clause's target and stays in front of
    its tokens. -/
def columnClause (c : Cursor) (options : List String) : Except SyntaxError AlterOperation := do
  let (name, _) ← c.name
  return ⟨options, some name, Lexeme.namedRemainder c.rest⟩

/-- Reads what follows `ADD`. -/
def addClause (c : Cursor) : Except SyntaxError AlterOperation :=
  match c.keyword? with
  | some "COLUMN" => c.next.columnClause ["ADD", "COLUMN"]
  | some word =>
    if word = "INDEX" ∨ word = "KEY" ∨ word = "CONSTRAINT" then
      let c := c.next
      if c.atPunct '(' || c.atAnyKeyword keyClauseWords then
        .ok ⟨["ADD", word], none, Lexeme.keyRemainder c.rest⟩
      else do
        let (name, c) ← c.name
        return ⟨["ADD", word], some name, Lexeme.keyRemainder c.rest⟩
    else if keyClauseWords.contains word then .ok ⟨["ADD"], none, Lexeme.keyRemainder c.rest⟩
    else c.columnClause ["ADD"]
  | none =>
    if c.atPunct '(' then .ok ⟨["ADD"], none, Lexeme.remainder c.rest⟩
    else c.columnClause ["ADD"]

/-- Reads what follows `CHANGE` or `MODIFY`, with the tokens that `tokens` makes of
    the lexemes after the column's name. -/
def changeClause (c : Cursor) (verb : String) (tokens : List Lexeme → List Token) :
    Except SyntaxError AlterOperation := do
  let options := if c.atKeyword "COLUMN" then [verb, "COLUMN"] else [verb]
  let (name, c) ← (c.skipKeyword "COLUMN").name
  return ⟨options, some name, tokens c.rest⟩

/-- Reads what follows `DROP`. -/
def dropClause (c : Cursor) : Except SyntaxError AlterOperation :=
  match c.keyword? with
  | some word =>
    if word = "COLUMN" ∨ word = "INDEX" ∨ word = "KEY" then do
      let (name, _) ← c.next.name
      return ⟨["DROP", word], some name, []⟩
    else if word = "FOREIGN KEY" ∨ word = "PRIMARY KEY" then
      .ok ⟨["DROP"], none, .keyword word :: Lexeme.namedRemainder c.next.rest⟩
    else do
      let (name, _) ← c.name
      return ⟨["DROP"], some name, []⟩
  | none => do
    let (name, _) ← c.name
    return ⟨["DROP"], some name, []⟩

/-- Reads what follows `RENAME`. -/
def renameClause (c : Cursor) : Except SyntaxError AlterOperation :=
  match c.keyword? with
  | some "TO" => .ok ⟨["RENAME", "TO"], none, Lexeme.namedRemainder c.next.rest⟩
  | some "AS" => .ok ⟨["RENAME"], none, Lexeme.remainder c.rest⟩
  | some word =>
    if word = "COLUMN" ∨ word = "INDEX" ∨ word = "KEY" then do
      let (name, c) ← c.next.name
      return ⟨["RENAME", word], some name, Lexeme.remainder c.rest⟩
    else .ok ⟨["RENAME"], none, Lexeme.namedRemainder c.rest⟩
  | none => .ok ⟨["RENAME"], none, Lexeme.namedRemainder c.rest⟩

/-- Reads a clause of an alteration. A clause that starts with no keyword is a table
    option, such as `ENGINE = InnoDB`. -/
def alterClause (c : Cursor) : Except SyntaxError AlterOperation :=
  match c.rest with
  | [] => c.complain .expectedClause
  | head :: rest =>
    match head.token.keyword? with
    | none => .ok ⟨[upperAscii head.raw], none, Lexeme.remainder rest⟩
    | some "ADD" => c.next.addClause
    | some "CHANGE" => c.next.changeClause "CHANGE" Lexeme.namedRemainder
    | some "MODIFY" => c.next.changeClause "MODIFY" Lexeme.remainder
    | some "DROP" => c.next.dropClause
    | some "RENAME" => c.next.renameClause
    | some verb => .ok ⟨[verb], none, Lexeme.remainder rest⟩

end Cursor

end TableShift
