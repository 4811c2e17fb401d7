import TableShift.Text.Decimal
import TableShift.Toml.Value

/-! # TOML scalars

Readers for the pieces of a TOML document that hold no other value: blanks,
comments, strings, keys, numbers and times. A reader gives what it read and the
characters that are left.
-/

namespace TableShift.Toml

/-- Whether a character may stand in a comment or, escapes and quotes aside, in a
    string: a tab, or anything that is no control character. -/
def isText (c : Char) : Bool :=
  c == '\t' || (0x20 ≤ c.toNat && c.toNat != 0x7F)

/-- Whether a character is a blank within a line. -/
def isTomlBlank (c : Char) : Bool :=
  c == ' ' || c == '\t'

def skipBlanks (cs : List Char) : List Char :=
  cs.dropWhile isTomlBlank

def lineBreak? : List Char → Option (List Char)
  | '\n' :: cs => some cs
  | '\r' :: '\n' :: cs => some cs
  | _ => none

/-- Passes over a comment, if one stands here. -/
def skipComment : List Char → List Char
  | '#' :: cs => cs.dropWhile isText
  | cs => cs

/-- Reads the end of a line, blanks and a comment before it aside. -/
def endOfLine? (cs : List Char) : Option (List Char) :=
  match skipComment (skipBlanks cs) with
  | [] => some []
  | cs => lineBreak? cs

/-! ## Strings -/

/-- The character of a code point written in hexadecimal. -/
def scalarOf? (digits : List Char) : Option Char :=
  match digitsValue? 16 0 digits with
  | some n => if h : n.isValidChar then some (Char.ofNatAux n h) else none
  | none => none

/-- The character that a short escape stands for. -/
def shortEscape? : Char → Option Char
  | 'b' => some '\x08'
  | 't' => some '\t'
  | 'n' => some '\n'
  | 'f' => some '\x0c'
  | 'r' => some '\r'
  | '"' => some '"'
  | '\\' => some '\\'
  | _ => none

/-- Reads what follows a backslash: the character meant. -/
def escape? : List Char → Option (Char × List Char)
  | [] => none
  | 'u' :: cs => if cs.length < 4 then none else (scalarOf? (cs.take 4)).map (·, cs.drop 4)
  | 'U' :: cs => if cs.length < 8 then none else (scalarOf? (cs.take 8)).map (·, cs.drop 8)
  | c :: cs => (shortEscape? c).map (·, cs)

/-- Reads a string in double quotes up to and with the closing quote; `fuel` is at
    least the number of characters. -/
def basicBody? : (fuel : Nat) → List Char → Option (List Char × List Char)
  | 0, _ => none
  | _, [] => none
  | fuel + 1, c :: cs =>
    if c = '"' then some ([], cs)
    else if c = '\\' then do
      let (meant, cs) ← escape? cs
      let (text, rest) ← basicBody? fuel cs
      return (meant :: text, rest)
    else if isText c then do
      let (text, rest) ← basicBody? fuel cs
      return (c :: text, rest)
    else none

/-- Reads a string in single quotes up to and with the closing quote. -/
def literalBody? : List Char → Option (List Char × List Char)
  | [] => none
  | c :: cs =>
    if c = '\'' then some ([], cs)
    else if isText c then (literalBody? cs).map fun (text, rest) => (c :: text, rest)
    else none

/-- Passes over blanks and line breaks; `fuel` is at least the number of characters. -/
def skipLines : (fuel : Nat) → List Char → List Char
  | 0, cs => cs
  | fuel + 1, cs =>
    let cs := skipBlanks cs
    match lineBreak? cs with
    | some rest => skipLines fuel rest
    | none => cs

/-- The quotes at the head of a text of several lines, which ends at three of them;
    two more may stand directly before its end. -/
def closing? (quote : Char) (cs : List Char) : Option (List Char × List Char) :=
  let run := ((cs.takeWhile (· == quote)).length).min 5
  if run < 3 then none else some (List.replicate (run - 3) quote, cs.drop run)

/-- Reads the inside of a string of several lines, up to and with its end. `escapes`
    says whether a backslash is special; before a line break it takes away all blanks
    that follow. `fuel` is at least the number of characters. -/
def linesBody? (quote : Char) (escapes : Bool) :
    (fuel : Nat) → List Char → Option (List Char × List Char)
  | 0, _ => none
  | _, [] => none
  | fuel + 1, c :: cs =>
    if c = quote then
      match closing? quote (c :: cs) with
      | some (quotes, rest) => some (quotes, rest)
      | none => (linesBody? quote escapes fuel cs).map fun (text, rest) => (c :: text, rest)
    else if c = '\\' && escapes then
      match lineBreak? (skipBlanks cs) with
      | some rest => linesBody? quote escapes fuel (skipLines rest.length rest)
      | none => do
        let (meant, cs) ← escape? cs
        let (text, rest) ← linesBody? quote escapes fuel cs
        return (meant :: text, rest)
    else
      match lineBreak? (c :: cs) with
      | some rest => (linesBody? quote escapes fuel rest).map fun (text, rest) => ('\n' :: text, rest)
      | none =>
        if isText c then
          (linesBody? quote escapes fuel cs).map fun (text, rest) => (c :: text, rest)
        else none

/-- Text without a line break in front. -/
def dropLineBreak (cs : List Char) : List Char :=
  (lineBreak? cs).getD cs

/-- Reads a string of any kind. -/
def stringValue? : List Char → Option (List Char × List Char)
  | '"' :: '"' :: '"' :: cs => linesBody? '"' true (cs.length + 1) (dropLineBreak cs)
  | '\'' :: '\'' :: '\'' :: cs => linesBody? '\'' false (cs.length + 1) (dropLineBreak cs)
  | '"' :: cs => basicBody? (cs.length + 1) cs
  | '\'' :: cs => literalBody? cs
  | _ => none

/-! ## Keys -/

/-- Whether a character may stand in a key without quotes. -/
def isBareKey (c : Char) : Bool :=
  c.isAlphanum || c == '-' || c == '_'

/-- Reads one part of a key. -/
def keyPart? : List Char → Option (String × List Char)
  | '"' :: cs => (basicBody? (cs.length + 1) cs).map fun (text, rest) => (String.ofList text, rest)
  | '\'' :: cs => (literalBody? cs).map fun (text, rest) => (String.ofList text, rest)
  | cs =>
    let text := cs.takeWhile isBareKey
    if text.isEmpty then none else some (String.ofList text, cs.dropWhile isBareKey)

/-- How many parts a key may have. -/
def maxKeyParts : Nat := 79

/-- Reads the parts of a key, with dots between them; `fuel` is more than the number
    of characters. -/
def keyParts? : (fuel : Nat) → List Char → Option (List String × List Char)
  | 0, _ => none
  | fuel + 1, cs => do
    let (part, cs) ← keyPart? (skipBlanks cs)
    match skipBlanks cs with
    | '.' :: cs => do
      let (parts, cs) ← keyParts? fuel cs
      return (part :: parts, cs)
    | cs => return ([part], cs)

def key? (cs : List Char) : Option (List String × List Char) :=
  (keyParts? (cs.length + 1) cs).filter fun (parts, _) => parts.length ≤ maxKeyParts

/-! ## Numbers and times -/

/-- Reads digits with single underscores between them; `digit` tells digits. -/
def digits? (digit : Char → Bool) : List Char → Option (List Char × List Char)
  | [] => none
  | c :: cs =>
    if digit c then
      match cs with
      | '_' :: cs =>
        match digits? digit cs with
        | some (ds, rest) => some (c :: ds, rest)
        | none => none
      | cs =>
        match digits? digit cs with
        | some (ds, rest) => some (c :: ds, rest)
        | none => some ([c], cs)
    else none

/-- Reads a sign, if one stands here. -/
def signOf : List Char → List Char × List Char
  | '+' :: cs => (['+'], cs)
  | '-' :: cs => (['-'], cs)
  | cs => ([], cs)

/-- Reads decimal digits without a needless zero in front. -/
def plainDigits? : List Char → Option (List Char × List Char)
  | '0' :: cs => some (['0'], cs)
  | cs => digits? Char.isDigit cs

/-- The power of ten at the end of a number, as written and as a number. -/
structure Exponent where
  text : List Char := []
  value : Int := 0

/-- Reads an exponent; none if no well-formed one stands here. -/
def exponent? : List Char → Option (Exponent × List Char)
  | c :: cs =>
    if c = 'e' ∨ c = 'E' then do
      let (sign, cs) := signOf cs
      let (digits, cs) ← digits? Char.isDigit cs
      let n ← digitsValue? 10 0 digits
      return (⟨c :: sign ++ digits, if sign == ['-'] then -n else n⟩, cs)
    else none
  | [] => none

/-- The written form of a number with a fraction or an exponent. A positive one is
    refused if it is too large for a floating-point number of 64 bits. -/
def floatText? (sign whole fraction : List Char) (exponent : Exponent) : Option String :=
  let magnitude : Decimal := ⟨whole ++ fraction, exponent.value - fraction.length⟩
  let point := if fraction.isEmpty then [] else '.' :: fraction
  if sign != ['-'] && magnitude.isInfinite then none
  else some (String.ofList (sign ++ whole ++ point ++ exponent.text))

/-- Reads a number with a fraction or an exponent, or one that is not finite. -/
def float? (cs : List Char) : Option (String × List Char) :=
  let (sign, cs) := signOf cs
  match cs with
  | 'i' :: 'n' :: 'f' :: cs => some (String.ofList (sign ++ ['i', 'n', 'f']), cs)
  | 'n' :: 'a' :: 'n' :: cs => some (String.ofList (sign ++ ['n', 'a', 'n']), cs)
  | cs => do
    let (whole, cs) ← plainDigits? cs
    match cs with
    | '.' :: cs => do
      let (fraction, cs) ← digits? Char.isDigit cs
      let (exponent, cs) := (exponent? cs).getD ({}, cs)
      return (← floatText? sign whole fraction exponent, cs)
    | cs => do
      let (exponent, cs) ← exponent? cs
      return (← floatText? sign whole [] exponent, cs)

/-- The number that digits of a radix spell, if it has 64 bits with a sign. -/
def word? (radix : Nat) (negative : Bool) (digits : List Char) : Option Int :=
  match digitsValue? radix 0 digits with
  | none => none
  | some n =>
    if negative then if n ≤ UInt64.size / 2 then some (-n) else none
    else if n < UInt64.size / 2 then some n else none

/-- Reads the digits of a number of a given radix. -/
def radixInteger? (radix : Nat) (cs : List Char) : Option (Int × List Char) := do
  let (digits, cs) ← digits? (fun c => (digitValue? radix c).isSome) cs
  let n ← word? radix false digits
  return (n, cs)

/-- Reads a whole number: decimal with an optional sign, or hexadecimal, octal or
    binary. -/
def integer? (cs : List Char) : Option (Int × List Char) :=
  match cs with
  | '0' :: 'x' :: cs => radixInteger? 16 cs
  | '0' :: 'o' :: cs => radixInteger? 8 cs
  | '0' :: 'b' :: cs => radixInteger? 2 cs
  | cs => do
    let (sign, cs) := signOf cs
    let (digits, cs) ← plainDigits? cs
    let n ← word? 10 (sign == ['-']) digits
    return (n, cs)

/-- Reads a number of a fixed count of digits, within limits. -/
def fixedDigits? (count least most : Nat) (cs : List Char) : Option (Nat × List Char) :=
  let digits := cs.take count
  if digits.length = count && digits.all Char.isDigit then
    match digitsValue? 10 0 digits with
    | some n => if least ≤ n && n ≤ most then some (n, cs.drop count) else none
    | none => none
  else none

def char? (c : Char) : List Char → Option (List Char)
  | d :: cs => if d = c then some cs else none
  | [] => none

def daysOfMonth (year month : Nat) : Nat :=
  if month = 2 then
    if year % 4 = 0 ∧ (year % 100 ≠ 0 ∨ year % 400 = 0) then 29 else 28
  else if month = 4 ∨ month = 6 ∨ month = 9 ∨ month = 11 then 30
  else 31

def date? (cs : List Char) : Option (List Char) := do
  let (year, cs) ← fixedDigits? 4 0 9999 cs
  let cs ← char? '-' cs
  let (month, cs) ← fixedDigits? 2 1 12 cs
  let cs ← char? '-' cs
  let (_, cs) ← fixedDigits? 2 1 (daysOfMonth year month) cs
  return cs

def time? (cs : List Char) : Option (List Char) := do
  let (_, cs) ← fixedDigits? 2 0 23 cs
  let cs ← char? ':' cs
  let (_, cs) ← fixedDigits? 2 0 59 cs
  let cs ← char? ':' cs
  let (_, cs) ← fixedDigits? 2 0 60 cs
  match cs with
  | '.' :: rest =>
    let fraction := rest.takeWhile Char.isDigit
    if fraction.isEmpty then none else return rest.dropWhile Char.isDigit
  | cs => return cs

/-- Reads the distance to universal time, if one stands here. -/
def skipOffset (cs : List Char) : List Char :=
  match cs with
  | 'Z' :: rest => rest
  | 'z' :: rest => rest
  | c :: rest =>
    if c = '+' ∨ c = '-' then
      let offset := do
        let (_, rest) ← fixedDigits? 2 0 23 rest
        let rest ← char? ':' rest
        let (_, rest) ← fixedDigits? 2 0 59 rest
        return rest
      offset.getD cs
    else cs
  | [] => []

/-- Reads a time that follows a date, if one stands here. -/
def skipTime (cs : List Char) : List Char :=
  match cs with
  | c :: rest =>
    if c = 'T' ∨ c = 't' ∨ c = ' ' then
      match time? rest with
      | some rest => skipOffset rest
      | none => cs
    else cs
  | [] => []

/-- Reads a date, a time, or both. -/
def dateTime? (cs : List Char) : Option (String × List Char) := do
  let rest ← ((date? cs).map skipTime).or (time? cs)
  return (String.ofList (cs.take (cs.length - rest.length)), rest)

end TableShift.Toml
