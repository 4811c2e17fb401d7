import TableShift.Text.Ascii

/-! # Quoted literals of generated code

Names and texts go into migrations as single-quoted literals, in which a
backslash makes a backslash or a quote after it plain.
-/

namespace TableShift

/-- How a character is written inside a single-quoted literal. -/
def escapeQuoted (c : Char) : List Char :=
  if c = '\\' then ['\\', '\\']
  else if c = '\'' then ['\\', '\'']
  else [c]

/-- A text as a single-quoted literal. -/
def quote (s : String) : String :=
  String.ofList ('\'' :: s.toList.flatMap escapeQuoted ++ ['\''])

/-- Names as a bracketed list of literals. -/
def quoteList (names : List String) : String :=
  "[" ++ joinWith ", " (names.map quote) ++ "]"

/-- Names as one argument: a bare literal for one name, the list for several, and
    an empty literal for none. -/
def quoteNames : List String → String
  | [] => quote ""
  | [name] => quote name
  | names => quoteList names

end TableShift
