import TableShift.Schema.AlterKind
import TableShift.Schema.ColumnClause
import TableShift.Schema.Command

/-! # Steps

Every statement is a step: commands that carry it out, and commands that take it
back. Columns of unknown types, and clauses that no rule is about or that lack a
part, are left out. What cannot be taken back from the statement alone is remarked
on.
-/

namespace TableShift

/-- The commands of a statement in both directions. -/
structure Step where
  up : List SchemaCommand
  down : List SchemaCommand
  deriving Repr, DecidableEq, BEq

/-! ## Creating a table -/

namespace Field

/-- The command that declares the column of a field, if it is a column of a known
    type. -/
def columnCommand? (field : Field) : Option TableCommand :=
  match field.name, field.type with
  | some name, some type =>
    (Declaration.of? type.name name type.parameters).map fun declaration =>
      .column declaration (modifierCalls field.mergedOptions) false
  | _, _ => none

/-- The command that declares a key of a field. The primary key on one column that is
    counted up automatically is implied by that column. -/
def keyCommand? (field : Field) (autoIncrement : List String) (key : Key) : Option TableCommand :=
  let columns := key.columnNames
  let name := key.name.or field.name
  match key.kind with
  | .foreign => some (.foreign columns name key.references)
  | .primary =>
    match columns with
    | [column] => if autoIncrement.contains column then none else some (.key .primary columns none)
    | _ => some (.key .primary columns none)
  | kind => some (.key kind columns name)

/-- The commands of a field: its column, then its key. -/
def commands (field : Field) (autoIncrement : List String) : List TableCommand :=
  field.columnCommand?.toList ++ (field.key.bind (field.keyCommand? autoIncrement)).toList

end Field

namespace CreateTable

/-- The columns that are counted up automatically. -/
def autoIncrement (statement : CreateTable) : List String :=
  (statement.fields.filter (·.hasOption "AUTO_INCREMENT")).filterMap Field.name

/-- The commands on the new table. -/
def body (statement : CreateTable) : List TableCommand :=
  statement.fields.flatMap (·.commands statement.autoIncrement)

def step (statement : CreateTable) : Step where
  up := [.create statement.table statement.body]
  down := [.dropIfExists statement.table]

end CreateTable

/-! ## Altering a table -/

/-- What a clause contributes: commands, the command that takes them back, and the
    name of the table afterwards. -/
structure ClauseEffect where
  up : List TableCommand
  down : TableCommand
  table : String
  deriving Repr, DecidableEq, BEq

/-- The referential actions among tokens: an event directly before an action. -/
def referenceOptions : List Token → List ReferenceOption
  | event :: action :: tokens =>
    match event.keyword?.bind ReferenceEvent.ofKeyword?,
        action.keyword?.bind ReferenceAction.ofKeyword? with
    | some event, some action' => ⟨event, action'⟩ :: referenceOptions (action :: tokens)
    | _, _ => referenceOptions (action :: tokens)
  | _ => []

namespace AlterOperation

/-- The name a clause is about: its target, or a name in front of its tokens. -/
def target? (operation : AlterOperation) (tokens : List Token) : Option String :=
  operation.field.or (tokens.head?.bind Token.name?)

/-- Adds or changes a column. The first token is its new name. -/
def columnEffect? (operation : AlterOperation) (table : String) (tokens : List Token)
    (change : Bool) : Option ClauseEffect :=
  match tokens with
  | .identifier newName :: tokens =>
    let column := operation.field.getD newName
    let clause := ColumnClause.scan tokens
    match clause.typeName.bind (Declaration.of? · column clause.parameters) with
    | none => none
    | some declaration =>
      let declare := TableCommand.column declaration (modifierCalls clause.options) change
      if change then
        let rename := if newName = column then [] else [TableCommand.renameColumn column newName]
        some ⟨declare :: rename, .remark AlterKind.changeColumn.label column, table⟩
      else some ⟨[declare], .drop .dropColumn (.name column), table⟩
  | _ => none

/-- What takes a key away: its name, or its columns if it has none. -/
def dropTarget (name : Option String) (columns : List String) : DropTarget :=
  match name with
  | some name => .name name
  | none => .columns columns

/-- Adds a key that `method` takes away. -/
def keyEffect? (operation : AlterOperation) (table : String) (tokens : List Token)
    (kind : KeyKind) (method : NameMethod) : Option ClauseEffect :=
  let name := operation.target? tokens
  let columns := parameterTexts tokens
  if columns.isEmpty then none
  else some ⟨[.key kind columns name], .drop method (dropTarget name columns), table⟩

/-- The target of a foreign key in a clause. -/
def referencesOf? (tokens : List Token) : Option References :=
  (tokensAfter? (·.isKeyword "REFERENCES") tokens).map fun tokens =>
    { table := (tokens.head?.map Token.text).getD ""
      columns := parameterTexts tokens.tail
      options := referenceOptions tokens }

def constraintEffect? (operation : AlterOperation) (table : String) (tokens : List Token) :
    Option ClauseEffect :=
  match tokensAfter? (·.isKeyword "FOREIGN KEY") tokens with
  | none => none
  | some rest =>
    let columns := parameterTexts rest
    if columns.isEmpty then none
    else
      some ⟨[.foreign columns operation.field (referencesOf? tokens)],
        .drop .dropForeign (dropTarget operation.field columns), table⟩

/-- Takes something away, which cannot be undone. -/
def dropEffect? (operation : AlterOperation) (table : String) (tokens : List Token)
    (kind : AlterKind) (method : NameMethod) : Option ClauseEffect :=
  (operation.target? tokens).map fun name =>
    ⟨[.drop method (.name name)], .remark kind.label name, table⟩

def renameTableEffect? (operation : AlterOperation) (table : String) (tokens : List Token) :
    Option ClauseEffect :=
  (operation.target? tokens).map fun newName => ⟨[.rename newName], .rename table, newName⟩

/-- Renames a column or an index, as `command` says. -/
def renameEffect? (operation : AlterOperation) (table : String) (tokens : List Token)
    (command : String → String → TableCommand) : Option ClauseEffect :=
  match operation.field with
  | none => none
  | some oldName =>
    match (tokensAfter? (·.isKeyword "TO") tokens).bind fun rest => rest.head?.bind Token.name? with
    | none => none
    | some newName => some ⟨[command oldName newName], command newName oldName, table⟩

/-- The effect of a clause on the table that has this name before it; none if the
    clause is left out. -/
def effect? (operation : AlterOperation) (table : String) : Option ClauseEffect :=
  match AlterKind.classify? operation.options operation.tokens with
  | none => none
  | some (kind, tokens) =>
    match kind with
    | .addColumn => operation.columnEffect? table tokens false
    | .changeColumn => operation.columnEffect? table tokens true
    | .addIndex => operation.keyEffect? table tokens .index .dropIndex
    | .addUnique => operation.keyEffect? table tokens .unique .dropUnique
    | .addFullText => operation.keyEffect? table tokens .fullText .dropFullText
    | .addConstraint => operation.constraintEffect? table tokens
    | .dropColumn => operation.dropEffect? table tokens kind .dropColumn
    | .dropIndex => operation.dropEffect? table tokens kind .dropIndex
    | .dropForeignKey => operation.dropEffect? table tokens kind .dropForeign
    | .renameTable => operation.renameTableEffect? table tokens
    | .renameColumn => operation.renameEffect? table tokens .renameColumn
    | .renameIndex => operation.renameEffect? table tokens .renameIndex

end AlterOperation

namespace AlterTable

/-- The effects of clauses on the table that has this name before them. -/
def effects (table : String) : List AlterOperation → List ClauseEffect
  | [] => []
  | operation :: operations =>
    match operation.effect? table with
    | none => effects table operations
    | some effect => effect :: effects effect.table operations

/-- The name of the table after its renames. -/
def finalTable (table : String) (effects : List ClauseEffect) : String :=
  (effects.getLast?.map ClauseEffect.table).getD table

/-- Clauses are taken back in reverse order, on the table's last name. -/
def step (statement : AlterTable) : Step :=
  let effects := effects statement.table statement.operations
  { up := [.alter statement.table (effects.flatMap ClauseEffect.up)]
    down := [.alter (finalTable statement.table effects) (effects.map ClauseEffect.down).reverse] }

end AlterTable

/-! ## Dropping tables -/

def DropTable.step (statement : DropTable) : Step where
  up := statement.tables.map .dropIfExists
  down := statement.tables.map (.remark "DROP TABLE")

/-- The commands of a statement in both directions. -/
def Statement.step : Statement → Step
  | create statement => statement.step
  | alter statement => statement.step
  | drop statement => statement.step

end TableShift
