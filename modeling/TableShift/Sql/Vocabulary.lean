import TableShift.Schema.ColumnMethod

/-! # Keywords

The words of the language, and the sequences of words that count as one. The
names of declarable column types are keywords too.
-/

namespace TableShift

/-- The keywords besides the type names, in upper case. -/
def plainKeywords : List String := [
  "ACTION", "ADD", "AFTER", "ALTER", "AS", "AUTO_INCREMENT", "CASCADE", "CHANGE",
  "CHARACTER", "CHECK", "COLLATE", "COLUMN", "COMMENT", "CONSTRAINT", "CREATE",
  "DEFAULT", "DELETE", "DROP", "EXISTS", "FIRST", "FOREIGN", "FULLTEXT", "IF",
  "IGNORE", "INDEX", "KEY", "MODIFY", "NO", "NOT", "NULL", "ON", "PRECISION",
  "PRIMARY", "REFERENCES", "RENAME", "RESTRICT", "SET", "SIGNED", "SPATIAL",
  "TABLE", "TEMPORARY", "TO", "UNIQUE", "UNSIGNED", "UPDATE", "ZEROFILL"]

/-- The sequences of keywords that count as one, the longest first. -/
def compoundKeywords : List (List String) := [
  ["IF", "NOT", "EXISTS"],
  ["CHARACTER", "SET"],
  ["DOUBLE", "PRECISION"],
  ["PRIMARY", "KEY"],
  ["FOREIGN", "KEY"],
  ["UNIQUE", "INDEX"],
  ["UNIQUE", "KEY"],
  ["FULLTEXT", "INDEX"],
  ["FULLTEXT", "KEY"],
  ["NOT", "NULL"],
  ["ON", "DELETE"],
  ["ON", "UPDATE"],
  ["SET", "NULL"],
  ["NO", "ACTION"],
  ["SET", "DEFAULT"],
  ["IF", "EXISTS"]]

/-- Whether a word is a keyword. A type name may be in any case, the others are in
    upper case. -/
def isKeywordWord (word : String) : Bool :=
  plainKeywords.contains word || ColumnMethod.isKnown word

end TableShift
