import TableShift.Schema.Quote
import TableShift.Text.Ascii
import TableShift.Text.Blank
import TableShift.Text.Numeral

/-! # Column declarations

The SQL types that have a declaration method on the schema builder, and the
declaration of a column by that method. A type outside the table cannot be
declared.
-/

namespace TableShift

/-- The declaration method of a SQL type. -/
structure ColumnMethod where
  /-- Name of the SQL type, in upper case. -/
  sqlType : String
  /-- Method of the table builder. -/
  method : String
  /-- Whether the first type parameter becomes a length. -/
  takesLength : Bool := false
  deriving Repr, DecidableEq, BEq

/-- Every SQL type with a declaration method. -/
def columnMethods : List ColumnMethod := [
  ⟨"INT", "integer", false⟩,
  ⟨"INTEGER", "integer", false⟩,
  ⟨"SMALLINT", "smallInteger", false⟩,
  ⟨"TINYINT", "tinyInteger", false⟩,
  ⟨"MEDIUMINT", "mediumInteger", false⟩,
  ⟨"BIGINT", "bigInteger", false⟩,
  ⟨"DEC", "decimal", false⟩,
  ⟨"FIXED", "decimal", false⟩,
  ⟨"NUMERIC", "decimal", false⟩,
  ⟨"DECIMAL", "decimal", false⟩,
  ⟨"FLOAT", "float", false⟩,
  ⟨"DOUBLE", "double", false⟩,
  ⟨"REAL", "double", false⟩,
  ⟨"DOUBLE PRECISION", "double", false⟩,
  ⟨"BIT", "boolean", false⟩,
  ⟨"BOOLEAN", "boolean", false⟩,
  ⟨"DATE", "date", false⟩,
  ⟨"DATETIME", "dateTime", false⟩,
  ⟨"TIMESTAMP", "timestamp", false⟩,
  ⟨"TIME", "time", false⟩,
  ⟨"YEAR", "year", false⟩,
  ⟨"CHAR", "char", false⟩,
  ⟨"VARCHAR", "string", true⟩,
  ⟨"BLOB", "binary", false⟩,
  ⟨"TINYTEXT", "tinyText", false⟩,
  ⟨"TEXT", "text", false⟩,
  ⟨"MEDIUMTEXT", "mediumText", false⟩,
  ⟨"LONGTEXT", "longText", false⟩]

namespace ColumnMethod

/-- The row of a type name, in any ASCII case. -/
def find? (typeName : String) : Option ColumnMethod :=
  columnMethods.find? (sameFolded ·.sqlType typeName)

/-- Whether a type name has a declaration method. -/
def isKnown (typeName : String) : Bool :=
  (find? typeName).isSome

end ColumnMethod

/-- The declaration of a column: its method, its name and its length, if any. -/
structure Declaration where
  method : ColumnMethod
  column : String
  length : Option UInt32
  deriving Repr, DecidableEq, BEq

namespace Declaration

/-- Declares a column of a type. The first parameter is its length, where the type
    takes one and the parameter is an unsigned number of 32 bits. -/
def of? (typeName column : String) (parameters : List String) : Option Declaration :=
  match ColumnMethod.find? typeName with
  | none => none
  | some method =>
    let length :=
      if method.takesLength then
        match parameters with
        | first :: _ => length? (trim first)
        | [] => none
      else none
    some ⟨method, column, length⟩

/-- The call that declares the column. -/
def code (declaration : Declaration) : String :=
  let arguments :=
    match declaration.length with
    | some n => quote declaration.column ++ ", " ++ toString n.toNat
    | none => quote declaration.column
  "$table->" ++ declaration.method.method ++ "(" ++ arguments ++ ")"

end Declaration

end TableShift
