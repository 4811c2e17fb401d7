import TableShift.Text.Ascii

/-! # Values and tokens

A script is made of tokens: keywords in upper case, identifiers as written,
literals and single punctuation characters. A value is what an option such as
`DEFAULT` carries.
-/

namespace TableShift

/-- A literal or expression. Numbers stay text, so no digit is ever lost. -/
inductive Value where
  /-- The keyword `NULL`. -/
  | null
  /-- A numeral as written. -/
  | number (text : String)
  /-- A string literal: the text it stands for. -/
  | string (text : String)
  /-- Anything else, as SQL text. -/
  | expr (sql : String)
  deriving Repr, DecidableEq, BEq, Inhabited

namespace Value

/-- The text of a value, without SQL quotes. -/
def text : Value → String
  | null => "NULL"
  | number text | string text | expr text => text

/-- A text between single quotes, with each quote in it doubled. -/
def quoteSql (s : String) : String :=
  String.ofList ('\'' :: (s.toList.flatMap fun c => if c = '\'' then ['\'', '\''] else [c]) ++ ['\''])

def sql : Value → String
  | null => "NULL"
  | number text => text
  | string text => quoteSql text
  | expr sql => sql

end Value

/-- A lexical unit of a script. -/
inductive Token where
  /-- A word of the vocabulary in upper case, or several joined by blanks. -/
  | keyword (word : String)
  /-- A name as written, without back quotes. -/
  | identifier (name : String)
  /-- A number, string or bit literal. -/
  | literal (value : Value)
  /-- A punctuation character. -/
  | punct (mark : Char)
  deriving Repr, DecidableEq, BEq, Inhabited

namespace Token

/-- Whether the token is the given keyword. -/
def isKeyword (word : String) : Token → Bool
  | keyword w => w == word
  | _ => false

/-- Whether the token is the given punctuation character. -/
def isPunct (mark : Char) : Token → Bool
  | punct m => m == mark
  | _ => false

theorem isKeyword_iff {word : String} {token : Token} :
    token.isKeyword word = true ↔ token = .keyword word := by
  cases token <;> simp [isKeyword]

/-- The keyword, if the token is one. -/
def keyword? : Token → Option String
  | keyword word => some word
  | _ => none

theorem keyword?_eq_some_iff {token : Token} {word : String} :
    token.keyword? = some word ↔ token = .keyword word := by
  cases token <;> simp [keyword?]

/-- The name, if the token is an identifier. -/
def name? : Token → Option String
  | identifier name => some name
  | _ => none

def sql : Token → String
  | keyword word => word
  | identifier name => name
  | literal value => value.sql
  | punct mark => String.singleton mark

/-- The token as the value of an option. -/
def toValue : Token → Value
  | keyword "NULL" => .null
  | literal value => value
  | token => .expr token.sql

/-- The text of a token that serves as a parameter or a name. -/
def text (token : Token) : String :=
  token.toValue.text

end Token

end TableShift
