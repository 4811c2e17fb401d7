/-! # JSON values

The data format in which statements are shown and exchanged. Objects keep the
order of their members, and numbers are exact decimals.
-/

namespace TableShift

inductive Json where
  | null
  | bool (value : Bool)
  /-- The number `mantissa / 10 ^ scale`. -/
  | num (mantissa : Int) (scale : Nat)
  | str (text : String)
  | arr (items : List Json)
  | obj (members : List (String × Json))
  deriving Repr, BEq, Inhabited

namespace Json

def ofNat (n : Nat) : Json :=
  .num n 0

/-- An optional value; none is null. -/
def ofOption {α : Type} (encode : α → Json) : Option α → Json
  | some a => encode a
  | none => .null

def ofList {α : Type} (encode : α → Json) (items : List α) : Json :=
  .arr (items.map encode)

/-- The text of a string value. -/
def str? : Json → Option String
  | .str text => some text
  | _ => none

/-- The natural number below `bound` that a value is. -/
def natBelow? (bound : Nat) : Json → Option Nat
  | .num (.ofNat n) 0 => if n < bound then some n else none
  | _ => none

/-- The values of a list, each decoded. -/
def list? {α : Type} (decode : Json → Option α) : Json → Option (List α)
  | .arr items => items.mapM decode
  | _ => none

/-- An optional value; null is none. -/
def option? {α : Type} (decode : Json → Option α) : Json → Option (Option α)
  | .null => some none
  | json => (decode json).map some

/-- The name and the content of a tagged value. A bare string is a tag whose content
    is null. -/
def tagged? : Json → Option (String × Json)
  | .obj [(tag, content)] => some (tag, content)
  | .str tag => some (tag, .null)
  | _ => none

def isNull : Json → Bool
  | .null => true
  | _ => false

/-! ## Records

A record is an object that holds its members by name, or a list that holds them
in order. -/

/-- The member of an object with a given name. -/
def member? (name : String) : List (String × Json) → Option Json
  | [] => none
  | (key, value) :: members => if key == name then some value else member? name members

/-- A member that must be there. -/
def required {α : Type} (record : Json) (index : Nat) (name : String)
    (decode : Json → Option α) : Option α :=
  match record with
  | .obj members => (member? name members).bind decode
  | .arr items => items[index]?.bind decode
  | _ => none

/-- A member that may be null; an object may also leave it out. -/
def nullable {α : Type} (record : Json) (index : Nat) (name : String)
    (decode : Json → Option α) : Option (Option α) :=
  match record with
  | .obj members =>
    match member? name members with
    | some json => option? decode json
    | none => some none
  | .arr items => items[index]?.bind (option? decode)
  | _ => none

/-- A list that may be left out, which makes it empty. -/
def listed {α : Type} (record : Json) (index : Nat) (name : String)
    (decode : Json → Option α) : Option (List α) :=
  match record with
  | .obj members =>
    match member? name members with
    | some json => list? decode json
    | none => some []
  | .arr items =>
    match items[index]? with
    | some json => list? decode json
    | none => some []
  | _ => none

/-- Whether a value is a record: an object, or a list of at most `size` members. -/
def isRecord (size : Nat) : Json → Bool
  | .obj _ => true
  | .arr items => items.length ≤ size
  | _ => false

/-! ## Pretty form

Members and items stand on lines of their own, two blanks deeper than what holds
them. -/

/-- How a character is written inside a JSON string. -/
def escapeChar (c : Char) : String :=
  match c with
  | '"' => "\\\""
  | '\\' => "\\\\"
  | '\x08' => "\\b"
  | '\x0c' => "\\f"
  | '\n' => "\\n"
  | '\r' => "\\r"
  | '\t' => "\\t"
  | c =>
    if c.toNat < 0x20 then
      "\\u00" ++ String.ofList [Nat.digitChar (c.toNat / 16), Nat.digitChar (c.toNat % 16)]
    else String.singleton c

/-- A text as a JSON string. -/
def quoted (s : String) : String :=
  "\"" ++ String.join (s.toList.map escapeChar) ++ "\""

def decimal (mantissa : Int) (scale : Nat) : String :=
  let sign := if mantissa < 0 then "-" else ""
  let digits := Nat.toDigits 10 mantissa.natAbs
  let digits := List.replicate (scale + 1 - digits.length) '0' ++ digits
  let whole := digits.take (digits.length - scale)
  let fraction := digits.drop (digits.length - scale)
  sign ++ String.ofList (if fraction.isEmpty then whole else whole ++ '.' :: fraction)

/-- A line break and the blanks at a depth. -/
def newline (depth : Nat) : String :=
  "\n" ++ String.ofList (List.replicate (2 * depth) ' ')

mutual

/-- The pretty form of a value at a depth. -/
def prettyAt (depth : Nat) : Json → String
  | .null => "null"
  | .bool value => if value then "true" else "false"
  | .num mantissa scale => decimal mantissa scale
  | .str text => quoted text
  | .arr [] => "[]"
  | .arr (item :: items) =>
    "[" ++ newline (depth + 1) ++ prettyAt (depth + 1) item ++ prettyItems (depth + 1) items ++
      newline depth ++ "]"
  | .obj [] => "\x7b\x7d"
  | .obj ((key, value) :: members) =>
    "\x7b" ++ newline (depth + 1) ++ quoted key ++ ": " ++ prettyAt (depth + 1) value ++
      prettyMembers (depth + 1) members ++ newline depth ++ "\x7d"

/-- The pretty form of the items after the first. -/
def prettyItems (depth : Nat) : List Json → String
  | [] => ""
  | item :: items => "," ++ newline depth ++ prettyAt depth item ++ prettyItems depth items

/-- The pretty form of the members after the first. -/
def prettyMembers (depth : Nat) : List (String × Json) → String
  | [] => ""
  | (key, value) :: members =>
    "," ++ newline depth ++ quoted key ++ ": " ++ prettyAt depth value ++
      prettyMembers depth members

end

/-- The pretty form of a value. -/
def pretty (json : Json) : String :=
  prettyAt 0 json

end Json

end TableShift
