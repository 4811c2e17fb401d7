import TableShift.Text.Ascii

/-! # Lines of a text

A text is cut at its line feeds. A carriage return directly before a line feed
belongs to the line break, and a line break at the end starts no further line.
-/

namespace TableShift

/-- A line without the carriage return of its line break. -/
def dropReturn (line : List Char) : List Char :=
  if line.getLast? = some '\r' then line.dropLast else line

/-- The lines of a text; `line` holds the characters of the current one in reverse. -/
def linesFrom (line : List Char) : List Char → List (List Char)
  | [] => if line.isEmpty then [] else [line.reverse]
  | c :: cs =>
    if c = '\n' then dropReturn line.reverse :: linesFrom [] cs
    else linesFrom (c :: line) cs

def textLines (s : String) : List String :=
  (linesFrom [] s.toList).map String.ofList

/-- A text with blanks after it up to a width. -/
def padRight (width : Nat) (s : String) : String :=
  s ++ String.ofList (List.replicate (width - s.toList.length) ' ')

end TableShift
