import TableShift.Sql.Token
import TableShift.Sql.Vocabulary

/-! # Lexemes

A lexeme is a token with the text it was read from and its span in bytes.
Consecutive keywords that form a compound are merged into one lexeme.
-/

namespace TableShift

/-- A token and where it stands. -/
structure Lexeme where
  token : Token
  /-- The spelling; for a string its meaning, for a back-quoted name the name. -/
  raw : String
  /-- Byte offset of the first character. -/
  start : Nat
  /-- Byte offset just past the last character. -/
  stop : Nat
  deriving Repr, DecidableEq, BEq, Inhabited

namespace Lexeme

/-- The lexeme as a name. Keywords serve as names in their own spelling. -/
def name? (l : Lexeme) : Option String :=
  match l.token with
  | .identifier name => some name
  | .keyword _ => some l.raw
  | .literal (.string text) => some text
  | _ => none

/-- The token, as an identifier if it can be a name. -/
def asIdentifier (l : Lexeme) : Token :=
  match l.name? with
  | some name => .identifier name
  | none => l.token

/-- Whether the first lexemes are the given keywords, in order. -/
def startWith : List String → List Lexeme → Bool
  | [], _ => true
  | _ :: _, [] => false
  | word :: words, l :: ls => l.token.isKeyword word && startWith words ls

/-- The compound keyword at the head of the lexemes, if there is one. -/
def compound? (ls : List Lexeme) : Option (List String) :=
  compoundKeywords.find? (startWith · ls)

/-- A compound has words. -/
theorem length_pos_of_compound? {ls : List Lexeme} {words : List String}
    (h : compound? ls = some words) : 0 < words.length := by
  have member := List.mem_of_find?_eq_some h
  have spelled : ∀ words ∈ compoundKeywords, 0 < words.length := by decide
  exact spelled words member

/-- The lexeme of a compound keyword, made of the lexemes of its words. -/
def ofCompound (words : List String) (parts : List Lexeme) : Lexeme where
  token := .keyword (joinWith " " words)
  raw := joinWith " " (parts.map Lexeme.raw)
  start := (parts.head?.map Lexeme.start).getD 0
  stop := (parts.getLast?.map Lexeme.stop).getD 0

/-- Merges every compound keyword, from left to right. -/
def mergeCompounds : List Lexeme → List Lexeme
  | [] => []
  | l :: ls =>
    match compound? (l :: ls) with
    | some words =>
      ofCompound words ((l :: ls).take words.length) ::
        mergeCompounds (ls.drop (words.length - 1))
    | none => l :: mergeCompounds ls
termination_by ls => ls.length
decreasing_by
  all_goals
    simp only [List.length_cons, List.length_drop]
    omega

end Lexeme

end TableShift
