import TableShift.Schema.Quote
import TableShift.Sql.Statement
import TableShift.Text.Blank

/-! # Column modifiers

Modifiers are calls chained to a column's declaration. Some are made when their
SQL option is present, one when its option is absent: a column without `NOT NULL`
is nullable. They come in the order of the tables, whatever the order of the
options.
-/

namespace TableShift

/-- How a modifier gets its argument from the option's value. -/
inductive ModifierArgument where
  /-- There is none. -/
  | none
  /-- The value's text as a literal. -/
  | quoted
  /-- The value as a default. -/
  | default
  deriving Repr, DecidableEq, BEq

/-- The call that a SQL option leads to. -/
structure Modifier where
  /-- Name of the option. -/
  option : String
  /-- Method of the column builder. -/
  method : String
  argument : ModifierArgument
  deriving Repr, DecidableEq, BEq

/-- The modifiers made when their option is present. -/
def presentModifiers : List Modifier := [
  ⟨"UNSIGNED", "unsigned", .none⟩,
  ⟨"AUTO_INCREMENT", "autoIncrement", .none⟩,
  ⟨"CHARACTER SET", "charset", .quoted⟩,
  ⟨"COLLATE", "collation", .quoted⟩,
  ⟨"DEFAULT", "default", .default⟩,
  ⟨"AFTER", "after", .quoted⟩]

/-- The modifiers made when their option is absent. -/
def absentModifiers : List Modifier := [⟨"NOT NULL", "nullable", .none⟩]

/-- Whether all characters are decimal digits. -/
def allDigits (cs : List Char) : Bool :=
  cs.all Char.isDigit

/-- Characters without a sign in front. -/
def unsignedPart : List Char → List Char
  | '+' :: cs => cs
  | '-' :: cs => cs
  | cs => cs

/-- Whether a character announces an exponent. -/
def isExponentMark (c : Char) : Bool :=
  c == 'e' || c == 'E'

/-- Whether a text, blanks around it aside, is a numeral: an optional sign, digits
    with an optional fraction, and an optional exponent. -/
def isNumeric (text : String) : Bool :=
  let unsigned := unsignedPart (trimChars text.toList)
  let mantissa := unsigned.takeWhile (!isExponentMark ·)
  let whole := mantissa.takeWhile (· != '.')
  let fraction := (mantissa.dropWhile (· != '.')).tail
  let exponentOk :=
    match unsigned.dropWhile (!isExponentMark ·) with
    | [] => true
    | _ :: exponent => !(unsignedPart exponent).isEmpty && allDigits (unsignedPart exponent)
  !(whole.isEmpty && fraction.isEmpty) && allDigits whole && allDigits fraction && exponentOk

/-- The argument of a default: numbers as strings, `NULL` as itself, strings as
    literals, and any other expression as it is. -/
def defaultArgument : Value → String
  | .null => "NULL"
  | .string text => quote text
  | .number text => "\"" ++ text ++ "\""
  | .expr sql =>
    if sameFolded sql "NULL" then "NULL"
    else if isNumeric sql then "\"" ++ sql ++ "\""
    else sql

namespace Modifier

/-- The modifier made when an option of this name is present. -/
def find? (option : String) : Option Modifier :=
  presentModifiers.find? (·.option == option)

/-- Whether the option carries a value. -/
def takesValue (modifier : Modifier) : Bool :=
  modifier.argument != .none

end Modifier

structure ModifierCall where
  modifier : Modifier
  argument : String
  deriving Repr, DecidableEq, BEq

namespace ModifierCall

/-- The chained call. -/
def code (call : ModifierCall) : String :=
  "->" ++ call.modifier.method ++ "(" ++ call.argument ++ ")"

end ModifierCall

/-- The call of a modifier for an option's value; none if it lacks the value it takes. -/
def Modifier.call? (modifier : Modifier) (value : Option Value) : Option ModifierCall :=
  match modifier.argument, value with
  | .none, _ => some ⟨modifier, ""⟩
  | .quoted, some value => some ⟨modifier, quote value.text⟩
  | .default, some value => some ⟨modifier, defaultArgument value⟩
  | _, none => none

/-- The modifiers of a column with the given options. Of several options of one name
    the first counts. -/
def modifierCalls (options : List ColumnOption) : List ModifierCall :=
  let first := fun (name : String) => options.find? (·.name == name)
  presentModifiers.filterMap (fun m => (first m.option).bind fun o => m.call? o.value?) ++
    (absentModifiers.filter fun m => (first m.option).isNone).filterMap (·.call? none)

end TableShift
