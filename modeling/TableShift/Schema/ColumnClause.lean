import TableShift.Schema.ColumnMethod
import TableShift.Schema.Modifier

/-! # Columns in clauses

The tokens of a clause that adds or changes a column, read again as a column: its
type, the parameters of the type, and the options that lead to modifiers.
-/

namespace TableShift

/-- The tokens after the first that satisfies a condition. -/
def tokensAfter? (condition : Token → Bool) : List Token → Option (List Token)
  | [] => none
  | token :: tokens => if condition token then some tokens else tokensAfter? condition tokens

/-- The texts of the tokens other than commas before the first closing parenthesis;
    none if there is no such parenthesis. -/
def textsToClose? : List Token → Option (List String)
  | [] => none
  | token :: tokens =>
    if token.isPunct ')' then some []
    else if token.isPunct ',' then textsToClose? tokens
    else (textsToClose? tokens).map (token.text :: ·)

/-- The parameters between the first opening parenthesis and the first closing one
    after it; none of them if either is missing. -/
def parameterTexts (tokens : List Token) : List String :=
  ((tokensAfter? (·.isPunct '(') tokens).bind textsToClose?).getD []

/-- A column as a clause describes it. -/
structure ColumnClause where
  typeName : Option String := none
  parameters : List String := []
  options : List ColumnOption := []
  deriving Repr, DecidableEq, BEq

namespace ColumnClause

/-- Adds an option at the end. -/
def withOption (clause : ColumnClause) (option : ColumnOption) : ColumnClause :=
  { clause with options := clause.options ++ [option] }

/-- Reads on from what was read before. The first known type counts; a modifier's
    keyword is an option, with the next token as its value if it takes one. -/
def scanFrom (clause : ColumnClause) : List Token → ColumnClause
  | [] => clause
  | token :: tokens =>
    match token.keyword? with
    | none => scanFrom clause tokens
    | some word =>
      if clause.typeName.isNone && ColumnMethod.isKnown word then
        let parameters := if tokens.head?.any (·.isPunct '(') then parameterTexts tokens else []
        scanFrom { clause with typeName := some word, parameters } tokens
      else
        match Modifier.find? word with
        | some modifier =>
          if modifier.takesValue then
            match tokens with
            | [] => clause
            | value :: tokens => scanFrom (clause.withOption (.keyValue word value.toValue)) tokens
          else scanFrom (clause.withOption (.flag word)) tokens
        | none =>
          if absentModifiers.any (·.option == word) then
            scanFrom (clause.withOption (.flag word)) tokens
          else scanFrom clause tokens

/-- The column that the tokens after its name describe. -/
def scan (tokens : List Token) : ColumnClause :=
  scanFrom {} tokens

end ColumnClause

end TableShift
