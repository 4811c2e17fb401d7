import TableShift.Sql.Statement

/-! # Kinds of alteration

What a clause does follows from the set of its leading words, and for some sets
from its first token. The rules are tried in order of their table.
-/

namespace TableShift

/-- What a clause of an alteration does. -/
inductive AlterKind where
  | addColumn
  | changeColumn
  | addIndex
  | addUnique
  | addFullText
  | addConstraint
  | dropColumn
  | dropIndex
  | dropForeignKey
  | renameTable
  | renameColumn
  | renameIndex
  deriving Repr, DecidableEq, BEq

/-- The words for a kind of alteration. -/
def AlterKind.label : AlterKind → String
  | addColumn => "ADD COLUMN"
  | changeColumn => "CHANGE COLUMN"
  | addIndex => "ADD INDEX"
  | addUnique => "ADD UNIQUE"
  | addFullText => "ADD FULLTEXT"
  | addConstraint => "ADD CONSTRAINT"
  | dropColumn => "DROP COLUMN"
  | dropIndex => "DROP INDEX"
  | dropForeignKey => "DROP FOREIGN KEY"
  | renameTable => "RENAME TABLE"
  | renameColumn => "RENAME COLUMN"
  | renameIndex => "RENAME INDEX"

/-- A kind that a rule gives when the first token is one of some keywords. -/
structure ClauseHead where
  keywords : List String
  kind : AlterKind
  /-- Whether the keyword is no longer part of the tokens. -/
  consumed : Bool
  deriving Repr, DecidableEq, BEq

/-- The kinds of clauses with a given set of leading words. -/
structure ClauseRule where
  words : List String
  heads : List ClauseHead
  /-- The kind when no head applies. -/
  otherwise : Option AlterKind
  deriving Repr, DecidableEq, BEq

/-- What may follow `ADD` besides a column. -/
def addHeads : List ClauseHead := [
  ⟨["UNIQUE", "UNIQUE INDEX", "UNIQUE KEY"], .addUnique, true⟩,
  ⟨["FULLTEXT", "FULLTEXT INDEX", "FULLTEXT KEY"], .addFullText, true⟩,
  ⟨["FOREIGN KEY"], .addConstraint, false⟩]

/-- Every rule, the first that applies counting. -/
def clauseRules : List ClauseRule := [
  ⟨["ADD"], addHeads, some .addColumn⟩,
  ⟨["ADD", "COLUMN"], addHeads, some .addColumn⟩,
  ⟨["CHANGE"], [], some .changeColumn⟩,
  ⟨["CHANGE", "COLUMN"], [], some .changeColumn⟩,
  ⟨["ADD", "INDEX"], [], some .addIndex⟩,
  ⟨["ADD", "KEY"], [], some .addIndex⟩,
  ⟨["ADD", "FULLTEXT"], [], some .addFullText⟩,
  ⟨["ADD", "CONSTRAINT"], [], some .addConstraint⟩,
  ⟨["DROP"], [⟨["FOREIGN KEY"], .dropForeignKey, true⟩], some .dropColumn⟩,
  ⟨["DROP", "COLUMN"], [], some .dropColumn⟩,
  ⟨["DROP", "INDEX"], [], some .dropIndex⟩,
  ⟨["DROP", "KEY"], [], some .dropIndex⟩,
  ⟨["RENAME"], [⟨["AS"], .renameTable, true⟩], none⟩,
  ⟨["RENAME", "TO"], [], some .renameTable⟩,
  ⟨["RENAME", "COLUMN"], [], some .renameColumn⟩,
  ⟨["RENAME", "INDEX"], [], some .renameIndex⟩,
  ⟨["RENAME", "KEY"], [], some .renameIndex⟩]

namespace ClauseRule

/-- Whether a rule is about a set of leading words, in any order and ASCII case. -/
def appliesTo (rule : ClauseRule) (options : List String) : Bool :=
  let options := options.map upperAscii
  rule.words.all options.contains && options.all rule.words.contains

/-- The kind a rule gives to tokens, and the tokens that are left. -/
def kind? (rule : ClauseRule) (tokens : List Token) : Option (AlterKind × List Token) :=
  let head? := tokens.head?.bind fun token =>
    rule.heads.find? fun head => head.keywords.any token.isKeyword
  match head? with
  | some head => some (head.kind, if head.consumed then tokens.tail else tokens)
  | none => rule.otherwise.map fun kind => (kind, tokens)

end ClauseRule

namespace AlterKind

/-- What a clause with these leading words and tokens does, and the tokens that are
    left; none if no rule is about it. -/
def classify? (options : List String) (tokens : List Token) : Option (AlterKind × List Token) :=
  (clauseRules.find? (·.appliesTo options)).bind (·.kind? tokens)

end AlterKind

end TableShift
