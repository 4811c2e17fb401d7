import TableShift.Sql.Lexeme
import TableShift.Sql.SyntaxError

/-! # Reading a slice of lexemes

A cursor stands in a slice of lexemes: a statement, a definition, a clause or a
part of a key. It knows what is left of the slice and where the slice ends, so a
complaint always points into the slice.
-/

namespace TableShift

/-- A place in a slice of lexemes. -/
structure Cursor where
  /-- The lexemes not yet read. -/
  rest : List Lexeme
  /-- Byte offset of the end of the slice. -/
  stop : Nat
  deriving Repr, DecidableEq

namespace Cursor

/-- The beginning of a slice. -/
def ofSlice (slice : List Lexeme) : Cursor :=
  ⟨slice, (slice.getLast?.map Lexeme.stop).getD 0⟩

/-- Byte offset of the next lexeme, or the end of the slice. -/
def position (c : Cursor) : Nat :=
  match c.rest with
  | l :: _ => l.start
  | [] => c.stop

/-- A complaint about the place of the cursor. -/
def complain {α : Type} (c : Cursor) (complaint : Complaint) : Except SyntaxError α :=
  .error ⟨c.position, complaint⟩

/-- The place after the next lexeme. -/
def next (c : Cursor) : Cursor :=
  { c with rest := c.rest.tail }

/-- The next lexeme's keyword, if it is one. -/
def keyword? (c : Cursor) : Option String :=
  c.rest.head?.bind (·.token.keyword?)

/-- Whether the next lexeme is the given keyword. -/
def atKeyword (c : Cursor) (word : String) : Bool :=
  c.rest.head?.any (·.token.isKeyword word)

/-- Whether the next lexeme is one of the given keywords. -/
def atAnyKeyword (c : Cursor) (words : List String) : Bool :=
  words.any c.atKeyword

/-- Whether the next lexeme is the given mark. -/
def atPunct (c : Cursor) (mark : Char) : Bool :=
  c.rest.head?.any (·.token.isPunct mark)

/-- The place after the given keyword, if it comes next, and else the same place. -/
def skipKeyword (c : Cursor) (word : String) : Cursor :=
  if c.atKeyword word then c.next else c

def expectKeyword (c : Cursor) (word : String) : Except SyntaxError Cursor :=
  if c.atKeyword word then .ok c.next else c.complain (.expectedKeyword word)

/-- Reads a name at the head of lexemes that end at `stop`; of a name with
    qualifiers, such as `schema.table`, the last part. -/
def nameFrom (stop : Nat) : List Lexeme → Except SyntaxError (String × List Lexeme)
  | [] => .error ⟨stop, .expectedName⟩
  | [l] =>
    match l.name? with
    | some name => .ok (name, [])
    | none => .error ⟨l.start, .expectedName⟩
  | l :: dot :: ls =>
    match l.name? with
    | some name => if dot.token.isPunct '.' then nameFrom stop ls else .ok (name, dot :: ls)
    | none => .error ⟨l.start, .expectedName⟩

/-- Reads a name; of a name with qualifiers the last part. -/
def name (c : Cursor) : Except SyntaxError (String × Cursor) :=
  match nameFrom c.stop c.rest with
  | .ok (name, rest) => .ok (name, { c with rest })
  | .error e => .error e

/-- Adds a lexeme in front of the inside of a group. -/
def keepInside (l : Lexeme) (split : List Lexeme × List Lexeme) : List Lexeme × List Lexeme :=
  (l :: split.1, split.2)

/-- Splits lexemes at the parenthesis that closes an open one, with `depth` further
    parentheses open inside it. -/
def splitClose (depth : Nat) : List Lexeme → Option (List Lexeme × List Lexeme)
  | [] => none
  | l :: ls =>
    if l.token.isPunct '(' then (splitClose (depth + 1) ls).map (keepInside l)
    else if l.token.isPunct ')' then
      match depth with
      | 0 => some ([], ls)
      | depth + 1 => (splitClose depth ls).map (keepInside l)
    else (splitClose depth ls).map (keepInside l)

/-- Reads a group in parentheses: the lexemes between an opening parenthesis and the
    one that closes it. -/
def group (c : Cursor) : Except SyntaxError (List Lexeme × Cursor) :=
  if c.atPunct '(' then
    match splitClose 0 c.rest.tail with
    | some (inside, after) => .ok (inside, { c with rest := after })
    | none => .error ⟨c.stop, .unbalancedParentheses⟩
  else c.complain .expectedGroup

theorem length_lt_of_splitClose {depth : Nat} {ls inside after : List Lexeme}
    (h : splitClose depth ls = some (inside, after)) : after.length < ls.length := by
  fun_induction splitClose depth ls generalizing inside after with
  | case1 => simp at h
  | case2 _ _ _ _ ih | case4 _ _ _ _ _ ih | case5 _ _ _ _ _ ih =>
    obtain ⟨found, hfound, hkeep⟩ := Option.map_eq_some_iff.mp h
    have := ih hfound
    simp only [keepInside, Prod.mk.injEq] at hkeep
    simp only [List.length_cons, ← hkeep.2]
    omega
  | case3 =>
    simp only [Option.some.injEq, Prod.mk.injEq] at h
    simp [← h.2]

theorem length_lt_of_nameFrom {stop : Nat} {ls rest : List Lexeme} {name : String}
    (h : nameFrom stop ls = .ok (name, rest)) : rest.length < ls.length := by
  fun_induction nameFrom stop ls with
  | case1 | case3 | case6 => simp at h
  | case2 | case5 =>
    simp only [Except.ok.injEq, Prod.mk.injEq] at h
    simp [← h.2]
  | case4 _ _ _ _ _ _ ih =>
    have := ih h
    simp only [List.length_cons]
    omega

/-- A name takes at least one lexeme. -/
theorem length_lt_of_name {c after : Cursor} {name : String}
    (h : c.name = .ok (name, after)) : after.rest.length < c.rest.length := by
  unfold Cursor.name at h
  split at h
  · rename_i found
    simp only [Except.ok.injEq, Prod.mk.injEq] at h
    exact h.2 ▸ length_lt_of_nameFrom found
  · simp at h

/-- A group takes at least two lexemes. -/
theorem length_lt_of_group {c after : Cursor} {inside : List Lexeme}
    (h : c.group = .ok (inside, after)) : after.rest.length < c.rest.length := by
  unfold group at h
  split at h
  · split at h
    · rename_i found
      have hlt := length_lt_of_splitClose found
      simp only [Except.ok.injEq, Prod.mk.injEq] at h
      simp only [← h.2]
      simp only [List.length_tail] at hlt
      omega
    · simp at h
  · simp [complain] at h

end Cursor

namespace Lexeme

/-- How many parentheses are open after a lexeme. One that closes nothing is passed
    over. -/
def depthAfter (depth : Nat) (l : Lexeme) : Nat :=
  if l.token.isPunct '(' then depth + 1
  else if l.token.isPunct ')' then depth - 1
  else depth

/-- The parts of a list between its commas outside parentheses. -/
def splitCommas (depth : Nat) : List Lexeme → List (List Lexeme)
  | [] => [[]]
  | l :: ls =>
    if l.token.isPunct ',' && depth == 0 then [] :: splitCommas depth ls
    else
      match splitCommas (depthAfter depth l) ls with
      | [] => [[l]]
      | part :: parts => (l :: part) :: parts

/-- The nonempty parts of a list between its commas outside parentheses. -/
def commaParts (ls : List Lexeme) : List (List Lexeme) :=
  (splitCommas 0 ls).filter (!·.isEmpty)

/-- The text of a parameter, such as `50` or `utf8`. -/
def parameterText (ls : List Lexeme) : String :=
  joinWith " " (ls.map (·.token.text))

/-- The SQL text of an expression, such as `'a' + 1`. -/
def expressionText (ls : List Lexeme) : String :=
  joinWith " " (ls.map (·.token.sql))

end Lexeme

end TableShift
