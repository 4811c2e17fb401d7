/-! # ASCII case and byte lengths

Keywords, option words and type names are compared without regard to ASCII
case; every other character keeps its own case. Positions in a script count the
bytes of its UTF-8 form.
-/

namespace TableShift

/-- A text with its ASCII letters in upper case. -/
def upperAscii (s : String) : String :=
  String.ofList (s.toList.map Char.toUpper)

/-- Whether two texts differ in ASCII case at most. -/
def sameFolded (a b : String) : Bool :=
  upperAscii a == upperAscii b

/-- Number of bytes the characters take in UTF-8. -/
def byteLength : List Char → Nat
  | [] => 0
  | c :: cs => c.utf8Size + byteLength cs

theorem byteLength_append (xs ys : List Char) :
    byteLength (xs ++ ys) = byteLength xs + byteLength ys := by
  induction xs with
  | nil => simp [byteLength]
  | cons c cs ih => simp [byteLength, ih, Nat.add_assoc]

/-- A list of texts with a separator between each two. -/
def joinWith (separator : String) : List String → String
  | [] => ""
  | [s] => s
  | s :: rest => s ++ separator ++ joinWith separator rest

end TableShift
