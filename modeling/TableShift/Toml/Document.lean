import TableShift.Toml.Scalar

/-! # TOML documents

A document is a list of lines: keys with values, headers of tables, comments and
empty lines. Its meaning is the table that these make up.
-/

namespace TableShift.Toml

/-- How deep arrays and tables in braces may be nested. -/
def maxNesting : Nat := 79

/-- Passes over blanks, line breaks and comments before a line break; `fuel` is at
    least the number of characters. -/
def skipSpace : (fuel : Nat) → List Char → List Char
  | 0, cs => cs
  | fuel + 1, cs =>
    let cs := skipBlanks cs
    match lineBreak? (skipComment cs) with
    | some rest => skipSpace fuel rest
    | none => cs

/-- Reads the items of an array up to and with its closing bracket. -/
def items? (value : List Char → Option (Toml × List Char)) :
    (fuel : Nat) → List Char → Option (List Toml × List Char)
  | 0, _ => none
  | fuel + 1, cs =>
    match skipSpace cs.length cs with
    | ']' :: rest => some ([], rest)
    | cs => do
      let (item, cs) ← value cs
      match skipSpace cs.length cs with
      | ',' :: cs => do
        let (items, rest) ← items? value fuel cs
        return (item :: items, rest)
      | ']' :: rest => return ([item], rest)
      | _ => none

/-- Reads a key, an equals sign and a value. -/
def pair? (value : List Char → Option (Toml × List Char)) (cs : List Char) :
    Option ((List String × Toml) × List Char) := do
  let (keys, cs) ← key? cs
  let cs ← char? '=' cs
  let (v, cs) ← value (skipBlanks cs)
  return ((keys, v), cs)

/-- Reads the pairs of a table in braces up to and with its closing brace. -/
def pairs? (value : List Char → Option (Toml × List Char)) :
    (fuel : Nat) → List Char → Option (List (List String × Toml) × List Char)
  | 0, _ => none
  | fuel + 1, cs => do
    let (pair, cs) ← pair? value cs
    match skipBlanks cs with
    | ',' :: cs => do
      let (pairs, rest) ← pairs? value fuel cs
      return (pair :: pairs, rest)
    | '\x7d' :: rest => return ([pair], rest)
    | _ => none

/-- Reads a table in braces, after its opening brace. -/
def inlineTable? (value : List Char → Option (Toml × List Char)) (cs : List Char) :
    Option (Toml × List Char) :=
  match skipBlanks cs with
  | '\x7d' :: rest => some (.table .inline [], rest)
  | cs => do
    let (pairs, rest) ← pairs? value (cs.length + 1) cs
    let members ← insertAll pairs []
    return (.table .inline members, rest)

/-- Reads a value that holds no other: a string, a truth value, a time or a number. -/
def scalar? (cs : List Char) : Option (Toml × List Char) :=
  match cs with
  | '"' :: _ => (stringValue? cs).map fun (text, rest) => (.string (String.ofList text), rest)
  | '\'' :: _ => (stringValue? cs).map fun (text, rest) => (.string (String.ofList text), rest)
  | 't' :: 'r' :: 'u' :: 'e' :: rest => some (.boolean true, rest)
  | 'f' :: 'a' :: 'l' :: 's' :: 'e' :: rest => some (.boolean false, rest)
  | _ =>
    ((dateTime? cs).map fun (text, rest) => (Toml.dateTime text, rest)).or
      (((float? cs).map fun (text, rest) => (Toml.float text, rest)).or
        ((integer? cs).map fun (n, rest) => (Toml.integer n, rest)))

/-- Reads a value with at most `nesting` levels of arrays and tables in braces. -/
def value? : (nesting : Nat) → List Char → Option (Toml × List Char)
  | 0, cs => scalar? cs
  | nesting + 1, cs =>
    match cs with
    | '[' :: cs =>
      (items? (value? nesting) (cs.length + 1) cs).map fun (items, rest) => (.array items, rest)
    | '\x7b' :: cs => inlineTable? (value? nesting) cs
    | cs => scalar? cs

inductive DocumentLine where
  | pair (keys : List String) (value : Toml)
  | table (keys : List String)
  | tables (keys : List String)

/-- Reads a header and the end of its line. -/
def header? : List Char → Option (DocumentLine × List Char)
  | '[' :: '[' :: cs => do
    let (keys, cs) ← key? cs
    let cs ← char? ']' cs
    let cs ← char? ']' cs
    let cs ← endOfLine? cs
    return (.tables keys, cs)
  | '[' :: cs => do
    let (keys, cs) ← key? cs
    let cs ← char? ']' cs
    let cs ← endOfLine? cs
    return (.table keys, cs)
  | _ => none

/-- Reads a key with its value and the end of its line. -/
def pairLine? (cs : List Char) : Option (DocumentLine × List Char) := do
  let ((keys, value), cs) ← pair? (value? maxNesting) cs
  let cs ← endOfLine? cs
  return (.pair keys value, cs)

/-- Reads the lines of a document; `fuel` is more than the number of characters. -/
def lines? : (fuel : Nat) → List Char → Option (List DocumentLine)
  | 0, _ => none
  | fuel + 1, cs =>
    match skipSpace cs.length cs with
    | [] => some []
    | '#' :: cs => if (cs.dropWhile isText).isEmpty then some [] else none
    | cs => do
      let (line, rest) ← (header? cs).or (pairLine? cs)
      let lines ← lines? fuel rest
      return line :: lines

/-- The pairs before the first header, and the lines from there on. -/
def leadingPairs : List DocumentLine → List (List String × Toml) × List DocumentLine
  | .pair keys value :: lines =>
    let (pairs, rest) := leadingPairs lines
    ((keys, value) :: pairs, rest)
  | lines => ([], lines)

/-- Adds the tables under headers to a table; `fuel` is more than the number of lines. -/
def assemble : (fuel : Nat) → List DocumentLine → Members → Option Members
  | 0, _, _ => none
  | _, [], members => some members
  | fuel + 1, line :: lines, members =>
    let (pairs, rest) := leadingPairs lines
    match line with
    | .pair keys value => (insert value keys members).bind (assemble fuel lines)
    | .table keys => (insertTable pairs keys members).bind (assemble fuel rest)
    | .tables keys => (appendTable pairs keys members).bind (assemble fuel rest)

/-- Text without a byte order mark in front. -/
def dropMark : List Char → List Char
  | '\ufeff' :: cs => cs
  | cs => cs

/-- The table that a document makes up; none if the document is malformed. -/
def parse? (text : String) : Option Members := do
  let cs := dropMark text.toList
  let lines ← lines? (cs.length + 1) cs
  assemble (lines.length + 1) lines []

end TableShift.Toml
