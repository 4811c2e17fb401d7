import TableShift.Sql.Key

/-! # Reading column definitions

A column is a name, a type with parameters, and options in any order. Some
options belong to the type, some carry a value, some declare a key on the column;
tokens that are no keyword are passed over.
-/

namespace TableShift

/-- What a keyword means among the options of a column. -/
inductive OptionRole where
  /-- A bare option of the type. -/
  | typeFlag
  /-- An option of the type with a value. -/
  | typeValue
  /-- An option of the column with a value. -/
  | value
  /-- A key on the column. -/
  | key (kind : KeyKind)
  /-- A check, with its condition in parentheses. -/
  | check
  /-- A reference, with which the options end. -/
  | reference
  /-- A bare option of the column. -/
  | flag
  deriving Repr, DecidableEq

/-- The meaning of a keyword among the options of a column. -/
def OptionRole.ofKeyword : String → OptionRole
  | "UNSIGNED" | "SIGNED" | "ZEROFILL" => typeFlag
  | "CHARACTER SET" | "COLLATE" => typeValue
  | "DEFAULT" | "COMMENT" | "ON UPDATE" | "AFTER" => value
  | "PRIMARY KEY" | "KEY" => key .primary
  | "UNIQUE" | "UNIQUE KEY" => key .unique
  | "CHECK" => check
  | "REFERENCES" => reference
  | _ => flag

/-- The options that follow a column's type. -/
structure ColumnTail where
  typeOptions : List ColumnOption := []
  options : List ColumnOption := []
  key : Option Key := none
  deriving Repr, DecidableEq

namespace ColumnTail

/-- Puts an option of the type in front. -/
def consType (option : ColumnOption) (tail : ColumnTail) : ColumnTail :=
  { tail with typeOptions := option :: tail.typeOptions }

/-- Puts an option of the column in front. -/
def consOption (option : ColumnOption) (tail : ColumnTail) : ColumnTail :=
  { tail with options := option :: tail.options }

/-- Puts a key in front; the last key of a column counts. -/
def consKey (key : Key) (tail : ColumnTail) : ColumnTail :=
  { tail with key := tail.key.or (some key) }

end ColumnTail

namespace Cursor

/-- Reads the value of an option: a group in parentheses, a literal, `NULL`, a call
    with its arguments, or a word. -/
def optionValue (c : Cursor) : Except SyntaxError (Value × Cursor) :=
  match c.rest with
  | [] => c.complain .expectedValue
  | l :: _ =>
    match l.token with
    | .punct mark =>
      if mark = '(' then
        match c.group with
        | .ok (inside, after) => .ok (.expr ("(" ++ Lexeme.expressionText inside ++ ")"), after)
        | .error e => .error e
      else c.complain (.unexpectedPunctuation mark)
    | .literal value => .ok (value, c.next)
    | token =>
      if token.isKeyword "NULL" then .ok (.null, c.next)
      else if c.next.atPunct '(' then
        match c.next.group with
        | .ok (inside, after) =>
          .ok (.expr (l.raw ++ "(" ++ Lexeme.expressionText inside ++ ")"), after)
        | .error e => .error e
      else .ok (.expr l.raw, c.next)

theorem length_next_lt {c : Cursor} {l : Lexeme} {ls : List Lexeme} (h : c.rest = l :: ls) :
    c.next.rest.length < c.rest.length := by
  simp [next, h]

/-- A value takes at least one lexeme. -/
theorem length_lt_of_optionValue {c after : Cursor} {value : Value}
    (h : c.optionValue = .ok (value, after)) : after.rest.length < c.rest.length := by
  unfold optionValue at h
  split at h
  · simp [complain] at h
  · rename_i l ls hrest
    have hnext := length_next_lt hrest
    split at h
    · split at h
      · split at h
        · rename_i found
          simp only [Except.ok.injEq, Prod.mk.injEq] at h
          exact h.2 ▸ length_lt_of_group found
        · simp at h
      · simp [complain] at h
    · simp only [Except.ok.injEq, Prod.mk.injEq] at h
      exact h.2 ▸ hnext
    · split at h
      · simp only [Except.ok.injEq, Prod.mk.injEq] at h
        exact h.2 ▸ hnext
      · split at h
        · split at h
          · rename_i found
            simp only [Except.ok.injEq, Prod.mk.injEq] at h
            have := length_lt_of_group found
            rw [h.2] at this
            omega
          · simp at h
        · simp only [Except.ok.injEq, Prod.mk.injEq] at h
          exact h.2 ▸ hnext

/-- Reads the options after the type of the column `column`. -/
def columnTail (column : String) (c : Cursor) : Except SyntaxError ColumnTail :=
  match _hrest : c.rest with
  | [] => .ok {}
  | l :: _ =>
    match l.token.keyword? with
    | none => columnTail column c.next
    | some word =>
      match OptionRole.ofKeyword word with
      | .typeFlag => (columnTail column c.next).map (.consType (.flag word))
      | .typeValue =>
        match _hvalue : c.next.optionValue with
        | .error e => .error e
        | .ok (value, after) => (columnTail column after).map (.consType (.keyValue word value))
      | .value =>
        match _hvalue : c.next.optionValue with
        | .error e => .error e
        | .ok (value, after) => (columnTail column after).map (.consOption (.keyValue word value))
      | .key kind => (columnTail column c.next).map (.consKey ⟨kind, none, [⟨column, none⟩], none⟩)
      | .check =>
        if c.next.atPunct '(' then
          match _hgroup : c.next.group with
          | .error e => .error e
          | .ok (_, after) => columnTail column after
        else columnTail column c.next
      | .reference => .ok {}
      | .flag => (columnTail column c.next).map (.consOption (.flag word))
termination_by c.rest.length
decreasing_by
  all_goals first
    | exact length_next_lt _hrest
    | exact Nat.lt_trans (length_lt_of_optionValue _hvalue) (length_next_lt _hrest)
    | exact Nat.lt_trans (length_lt_of_group _hgroup) (length_next_lt _hrest)

theorem columnTail_nil (column : String) {c : Cursor} (h : c.rest = []) :
    columnTail column c = .ok {} := by
  obtain ⟨rest, stop⟩ := c
  subst h
  rw [columnTail]

/-- What the next lexeme makes of the options after it. -/
theorem columnTail_cons (column : String) {c : Cursor} {l : Lexeme} {ls : List Lexeme}
    (h : c.rest = l :: ls) :
    columnTail column c =
      match l.token.keyword? with
      | none => columnTail column c.next
      | some word =>
        match OptionRole.ofKeyword word with
        | .typeFlag => (columnTail column c.next).map (.consType (.flag word))
        | .typeValue => c.next.optionValue >>= fun read =>
            (columnTail column read.2).map (.consType (.keyValue word read.1))
        | .value => c.next.optionValue >>= fun read =>
            (columnTail column read.2).map (.consOption (.keyValue word read.1))
        | .key kind =>
          (columnTail column c.next).map (.consKey ⟨kind, none, [⟨column, none⟩], none⟩)
        | .check =>
          if c.next.atPunct '(' then c.next.group >>= fun read => columnTail column read.2
          else columnTail column c.next
        | .reference => .ok {}
        | .flag => (columnTail column c.next).map (.consOption (.flag word)) := by
  obtain ⟨rest, stop⟩ := c
  subst h
  rw [columnTail]
  dsimp only
  cases l.token.keyword? with
  | none => rfl
  | some word =>
      dsimp only
      cases OptionRole.ofKeyword word with
      | typeFlag | key kind | reference | flag => rfl
      | typeValue | value =>
          dsimp only
          split
          next failed => rw [failed]; rfl
          next read => rw [read]; rfl
      | check =>
          dsimp only
          split
          next opened =>
            split
            next failed => rw [failed]; rfl
            next read => rw [read]; rfl
          next unopened => rfl

/-- The name of the type that comes next: a keyword, or a word in upper case. -/
def typeName? (c : Cursor) : Option String :=
  match c.rest with
  | [] => none
  | l :: _ =>
    match l.token with
    | .keyword word => some word
    | .identifier name => some (upperAscii name)
    | _ => none

/-- Reads the parameters of a type, if it has any. -/
def typeParameters (c : Cursor) : Except SyntaxError (List String × Cursor) :=
  if c.atPunct '(' then
    match c.group with
    | .ok (inside, after) => .ok ((Lexeme.commaParts inside).map Lexeme.parameterText, after)
    | .error e => .error e
  else .ok ([], c)

def column (c : Cursor) : Except SyntaxError Field := do
  let (name, c) ← c.name
  match c.typeName? with
  | none => c.complain (.expectedType name)
  | some typeName =>
    let (parameters, c) ← c.next.typeParameters
    let tail ← c.columnTail name
    return ⟨some name, some ⟨typeName, parameters, tail.typeOptions⟩, tail.options, tail.key⟩

/-- Reads one definition of a table's body: a column, or a key clause with the name
    of its constraint. The result is none for a constraint that declares no key. -/
def definition (c : Cursor) : Except SyntaxError (Option Field) :=
  if c.atAnyKeyword keyClauseWords then do
    let (name, c) ←
      if c.atKeyword "CONSTRAINT" then
        if c.next.atAnyKeyword keyClauseWords then pure (none, c.next)
        else do
          let (name, c) ← c.next.name
          pure (some name, c)
      else pure (none, c)
    let key ← c.keyClause
    return key.map fun key => { name, key := some key }
  else do
    let field ← c.column
    return some field

end Cursor

end TableShift
