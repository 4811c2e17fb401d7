/-! # Drafts of generated code

A draft is code under construction at some tab level. Its first fragment stands
bare, because the place that receives the code is already indented; each later
line starts on a new line at the current level.
-/

namespace TableShift

/-- The tab level of a method body in a migration. -/
def bodyLevel : Nat := 2

def tabs (n : Nat) : String :=
  String.ofList (List.replicate n '\t')

/-- One line of code, at a depth below the place it is written to. -/
structure Line where
  depth : Nat
  text : String
  deriving Repr, DecidableEq, BEq

structure Draft where
  text : String := ""
  level : Nat := bodyLevel
  deriving Repr, DecidableEq, BEq

namespace Draft

/-- An empty draft at a level. -/
def atLevel (level : Nat) : Draft :=
  { level }

/-- Whether nothing has been written yet. -/
def isEmpty (d : Draft) : Bool :=
  d.text.isEmpty

/-- Appends a fragment, on a new line and with tabs if asked for; the first fragment
    gets neither. -/
def append (d : Draft) (fragment : String) (newline indented : Bool) : Draft :=
  let start :=
    if d.isEmpty then ""
    else (if newline then "\n" else "") ++ (if indented then tabs d.level else "")
  { d with text := d.text ++ start ++ fragment }

/-- Appends a line at the current level. -/
def line (d : Draft) (fragment : String) : Draft :=
  d.append fragment true true

/-- Continues the current line. -/
def push (d : Draft) (fragment : String) : Draft :=
  d.append fragment false false

def deeper (d : Draft) (n : Nat) : Draft :=
  { d with level := d.level + n }

/-- Lowers the level, at most to zero. -/
def shallower (d : Draft) (n : Nat) : Draft :=
  { d with level := d.level - n }

/-- Starts the line after an empty one, unless nothing has been written yet. -/
def blankLine (d : Draft) : Draft :=
  if d.isEmpty then d else d.append "" true false

/-- Appends a line below the current level. -/
def writeLine (d : Draft) (l : Line) : Draft :=
  ((d.deeper l.depth).line l.text).shallower l.depth

/-- Appends lines, each below the current level. -/
def writeLines (d : Draft) (ls : List Line) : Draft :=
  ls.foldl writeLine d

/-- Lines leave the level as it is. -/
@[simp]
theorem level_writeLines (d : Draft) (ls : List Line) : (d.writeLines ls).level = d.level := by
  unfold writeLines
  induction ls generalizing d with
  | nil => rfl
  | cons l ls ih =>
    rw [List.foldl_cons, ih]
    simp [writeLine, shallower, deeper, line, append]

end Draft

namespace Line

/-- Lines at a depth below their own. -/
def deeper (n : Nat) (ls : List Line) : List Line :=
  ls.map fun l => { l with depth := l.depth + n }

/-- Continues the last line. -/
def pushLast (fragment : String) : List Line → List Line
  | [] => []
  | [l] => [{ l with text := l.text ++ fragment }]
  | l :: ls => l :: pushLast fragment ls

end Line

end TableShift
