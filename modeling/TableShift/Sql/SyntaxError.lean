import TableShift.Sql.Statement

/-! # Syntax errors

Why a script cannot be read, and at which byte of it.
-/

namespace TableShift

/-- What is wrong with a script. -/
inductive Complaint where
  | unterminatedComment
  | unterminatedQuote
  | unexpectedCharacter (c : Char)
  | expectedKeyword (word : String)
  | expectedName
  | expectedGroup
  | unbalancedParentheses
  | noDefinitions (table : String)
  | expectedKey
  | noKeyColumns (kind : KeyKind)
  | expectedAction
  | expectedType (column : String)
  | expectedValue
  | unexpectedPunctuation (mark : Char)
  | noClauses (table : String)
  | expectedClause
  deriving Repr, DecidableEq, BEq

def Complaint.message : Complaint → String
  | unterminatedComment => "unterminated comment"
  | unterminatedQuote => "unterminated quoted text"
  | unexpectedCharacter c => "unexpected character '" ++ String.singleton c ++ "'"
  | expectedKeyword word => "expected " ++ word
  | expectedName => "expected a name"
  | expectedGroup => "expected '('"
  | unbalancedParentheses => "unbalanced parentheses"
  | noDefinitions table => "table '" ++ table ++ "' has no definitions"
  | expectedKey => "expected a key definition"
  | noKeyColumns kind => kind.sql ++ " without columns"
  | expectedAction => "expected a referential action"
  | expectedType column => "expected a type for column '" ++ column ++ "'"
  | expectedValue => "expected a value"
  | unexpectedPunctuation mark => "unexpected '" ++ String.singleton mark ++ "'"
  | noClauses table => "ALTER TABLE '" ++ table ++ "' without clauses"
  | expectedClause => "expected an ALTER clause"

/-- A complaint and the byte offset it is about. -/
structure SyntaxError where
  position : Nat
  complaint : Complaint
  deriving Repr, DecidableEq, BEq

/-- What reading gives can be compared. -/
instance decidableEqResult {α : Type} [DecidableEq α] : DecidableEq (Except SyntaxError α)
  | .ok a, .ok b => decidable_of_iff (a = b) (by simp)
  | .error e, .error d => decidable_of_iff (e = d) (by simp)
  | .ok _, .error _ | .error _, .ok _ => isFalse (by simp)

end TableShift
