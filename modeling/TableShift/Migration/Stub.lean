import TableShift.Error
import TableShift.Migration.Batch
import TableShift.Store.FileStore

/-! # Stubs

A stub is the text of a migration file with placeholders for the code and the
table. All placeholders are filled in one pass from left to right, so what is
filled in is never looked at again.
-/

namespace TableShift

/-- The placeholders for the code that carries a migration out. -/
def upPlaceholders : List String := [
  "\x7b\x7b up \x7d\x7d", "\x7b\x7bup\x7d\x7d", "\x7b\x7b definition \x7d\x7d",
  "\x7b\x7bdefinition\x7d\x7d", "DummyDefinition"]

/-- The placeholders for the code that takes a migration back. -/
def downPlaceholders : List String := ["\x7b\x7b down \x7d\x7d", "\x7b\x7bdown\x7d\x7d"]

/-- The placeholders for the table's name. -/
def tablePlaceholders : List String := ["\x7b\x7b table \x7d\x7d", "\x7b\x7btable\x7d\x7d"]

/-- Whether a text occurs in another. -/
def occursIn (part : List Char) : List Char → Bool
  | [] => part.isEmpty
  | c :: cs => part.isPrefixOf (c :: cs) || occursIn part cs

/-- The text of a migration file with placeholders. -/
structure Stub where
  template : String
  deriving Repr, DecidableEq, BEq

namespace Stub

/-- The stub used when no other is given. -/
def builtin : Stub where
  template := joinWith "\n" [
    "<?php",
    "",
    "use Illuminate\\Database\\Migrations\\Migration;",
    "use Illuminate\\Database\\Schema\\Blueprint;",
    "use Illuminate\\Support\\Facades\\Schema;",
    "",
    "return new class extends Migration",
    "\x7b",
    "\t/**",
    "\t * Run the migrations.",
    "\t */",
    "\tpublic function up(): void",
    "\t\x7b",
    "\t\t\x7b\x7b up \x7d\x7d",
    "\t\x7d",
    "",
    "\t/**",
    "\t * Reverse the migrations.",
    "\t */",
    "\tpublic function down(): void",
    "\t\x7b",
    "\t\t\x7b\x7b down \x7d\x7d",
    "\t\x7d",
    "\x7d;",
    ""]

/-- A stub of some text, which must have a place for the code. -/
def ofText? (template : String) : Option Stub :=
  if upPlaceholders.any fun mark => occursIn mark.toList template.toList then some ⟨template⟩
  else none

/-- Replaces every mark of a table by its value. -/
def fill (table : List (List Char × List Char)) : List Char → List Char
  | [] => []
  | c :: cs =>
    match table.find? fun (mark, _) => mark.isPrefixOf (c :: cs) with
    | some (mark, value) => value ++ fill table (cs.drop (mark.length - 1))
    | none => c :: fill table cs
termination_by cs => cs.length
decreasing_by
  all_goals
    simp only [List.length_cons, List.length_drop]
    omega

/-- What stands for each placeholder of a migration about a table. -/
def substitutions (table : String) (migration : Migration) : List (List Char × List Char) :=
  upPlaceholders.map (fun mark => (mark.toList, migration.up.toList)) ++
    downPlaceholders.map (fun mark => (mark.toList, migration.down.toList)) ++
    tablePlaceholders.map fun mark => (mark.toList, table.toList)

/-- The text of a migration file. -/
def render (stub : Stub) (table : String) (migration : Migration) : String :=
  String.ofList (fill (substitutions table migration) stub.template.toList)

def load {m : Type → Type} [Monad m] [FileStore m] (path : String) : m (Except Error Stub) := do
  match ← FileStore.read path with
  | .error e => return .error (.io e)
  | .ok template =>
    match ofText? template with
    | some stub => return .ok stub
    | none => return .error (.stub (some path))

end Stub

end TableShift
