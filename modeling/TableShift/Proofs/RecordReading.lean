import TableShift.Sql.StatementJson

/-! # Statements read back from JSON

Reading inverts writing for every part of a statement, from values and tokens up to whole
statements: the writer gives each part all its members, and the reader looks for exactly
these. A value that leaves members out or has others besides may be read as the same
statement, which is then written in full.
-/

namespace TableShift

/-! ## Lists and optional values -/

namespace Json

variable {α : Type} {encode : α → Json} {decode : Json → Option α}

theorem list?_ofList (h : ∀ a, decode (encode a) = some a) (items : List α) :
    list? decode (ofList encode items) = some items := by
  rw [ofList, list?]
  induction items with
  | nil => rfl
  | cons a items ih => simp [h, ih]

theorem option?_ofOption (h : ∀ a, decode (encode a) = some a)
    (visible : ∀ a, (encode a).isNull = false) (value : Option α) :
    option? decode (ofOption encode value) = some value := by
  cases value with
  | none => rfl
  | some a =>
      have shown := visible a
      have read := h a
      cases json : encode a <;> simp_all [ofOption, option?, isNull]

theorem list?_strings (items : List String) : list? str? (ofList .str items) = some items :=
  list?_ofList (fun _ : String => rfl) items

theorem option?_string (value : Option String) : option? str? (ofOption .str value) = some value :=
  option?_ofOption (fun _ : String => rfl) (fun _ => rfl) value

end Json

/-! ## Tagged values -/

theorem Value.ofJson?_toJson (value : Value) : ofJson? value.toJson = some value := by
  cases value <;> rfl

theorem markOfText?_singleton (c : Char) : markOfText? (String.singleton c) = some c := by
  simp [markOfText?]

theorem Token.ofJson?_toJson (token : Token) : ofJson? token.toJson = some token := by
  cases token with
  | keyword | identifier => rfl
  | literal value =>
      show (Value.ofJson? value.toJson).map Token.literal = _
      rw [Value.ofJson?_toJson, Option.map_some]
  | punct mark =>
      show (markOfText? (String.singleton mark)).map Token.punct = _
      rw [markOfText?_singleton, Option.map_some]

theorem ColumnOption.ofJson?_toJson (option : ColumnOption) :
    ofJson? option.toJson = some option := by
  cases option with
  | flag name => rfl
  | keyValue name value =>
      show (Value.ofJson? value.toJson).bind (fun value => some (ColumnOption.keyValue name value)) = _
      rw [Value.ofJson?_toJson, Option.bind_some]

theorem KeyKind.constantOfJson?_tag (kind : KeyKind) :
    constantOfJson? tags (.str kind.tag) = some kind := by
  cases kind <;> decide

theorem ReferenceEvent.constantOfJson?_tag (event : ReferenceEvent) :
    constantOfJson? tags (.str event.tag) = some event := by
  cases event <;> decide

theorem ReferenceAction.constantOfJson?_tag (action : ReferenceAction) :
    constantOfJson? tags (.str action.tag) = some action := by
  cases action <;> decide

/-! ## Records -/

theorem wordOfJson?_ofNat (n : UInt32) : wordOfJson? (.ofNat n.toNat) = some n := by
  have fits : n.toNat < UInt32.size := n.toNat_lt
  show (if n.toNat < UInt32.size then some n.toNat else none).map UInt32.ofNat = _
  rw [if_pos fits, Option.map_some, UInt32.ofNat_toNat]

theorem ColumnType.ofJson?_toJson (type : ColumnType) : ofJson? type.toJson = some type := by
  simp [ofJson?, toJson, Json.isRecord, Json.required, Json.listed, Json.member?, Json.str?,
    Json.list?_strings, Json.list?_ofList ColumnOption.ofJson?_toJson]

theorem IndexColumn.ofJson?_toJson (column : IndexColumn) : ofJson? column.toJson = some column := by
  have length := Json.option?_ofOption wordOfJson?_ofNat (fun _ => rfl) column.length
  simp [ofJson?, toJson, Json.isRecord, Json.required, Json.nullable, Json.member?, Json.str?, length]

theorem ReferenceOption.ofJson?_toJson (option : ReferenceOption) :
    ofJson? option.toJson = some option := by
  simp [ofJson?, toJson, Json.isRecord, Json.required, Json.member?,
    ReferenceEvent.constantOfJson?_tag, ReferenceAction.constantOfJson?_tag]

theorem References.ofJson?_toJson (references : References) :
    ofJson? references.toJson = some references := by
  simp [ofJson?, toJson, Json.isRecord, Json.required, Json.listed, Json.member?, Json.str?,
    Json.list?_strings, Json.list?_ofList ReferenceOption.ofJson?_toJson]

theorem Key.ofJson?_toJson (key : Key) : ofJson? key.toJson = some key := by
  have references := Json.option?_ofOption References.ofJson?_toJson (fun _ => rfl) key.references
  simp [ofJson?, toJson, Json.isRecord, Json.required, Json.nullable, Json.member?,
    KeyKind.constantOfJson?_tag, Json.option?_string,
    Json.list?_ofList IndexColumn.ofJson?_toJson, references]

theorem Field.ofJson?_toJson (field : Field) : ofJson? field.toJson = some field := by
  have type := Json.option?_ofOption ColumnType.ofJson?_toJson (fun _ => rfl) field.type
  have key := Json.option?_ofOption Key.ofJson?_toJson (fun _ => rfl) field.key
  simp [ofJson?, toJson, Json.isRecord, Json.nullable, Json.listed, Json.member?,
    Json.option?_string, Json.list?_ofList ColumnOption.ofJson?_toJson, type, key]

theorem AlterOperation.ofJson?_toJson (operation : AlterOperation) :
    ofJson? operation.toJson = some operation := by
  simp [ofJson?, toJson, Json.isRecord, Json.required, Json.nullable, Json.listed, Json.member?,
    Json.list?_strings, Json.option?_string, Json.list?_ofList Token.ofJson?_toJson]

/-! ## Statements -/

namespace Statement

theorem ofJson?_toJson (statement : Statement) : ofJson? statement.toJson = some statement := by
  cases statement with
  | create statement =>
      simp [ofJson?, toJson, tagJson, Json.tagged?, CreateTable.ofJson?, Json.isRecord,
        Json.required, Json.member?, Json.str?, Json.list?_ofList Field.ofJson?_toJson]
  | alter statement =>
      simp [ofJson?, toJson, tagJson, Json.tagged?, AlterTable.ofJson?, Json.isRecord,
        Json.required, Json.member?, Json.str?, Json.list?_ofList AlterOperation.ofJson?_toJson]
  | drop statement =>
      simp [ofJson?, toJson, tagJson, Json.tagged?, DropTable.ofJson?, Json.isRecord,
        Json.required, Json.member?, Json.list?_strings]

/-- What was written is read back, for every statement. So a value that is read as a
    statement, whatever it leaves out or adds, may be replaced by the written one. -/
theorem json_roundTrip :
    (∀ statement : Statement, ofJson? statement.toJson = some statement) ∧
      ∀ (json : Json) (statement : Statement), ofJson? json = some statement →
        ofJson? statement.toJson = some statement :=
  ⟨ofJson?_toJson, fun _ statement _ => ofJson?_toJson statement⟩

/-- A statement without its optional members, in another order and with one more. -/
def looseOrders : Json :=
  .obj [("Create", .obj [
    ("engine", .str "InnoDB"),
    ("fields", .arr [
      .obj [("name", .str "id"), ("type", .obj [("name", .str "INT")])],
      .obj [("key", .obj [
        ("columns", .arr [.obj [("name", .str "id")]]),
        ("type", .obj [("PrimaryKey", .null)])])]]),
    ("table", .str "orders")])]

def orders : Statement :=
  .create ⟨"orders", [
    { name := some "id", type := some ⟨"INT", [], []⟩ },
    { key := some ⟨.primary, none, [⟨"id", none⟩], none⟩ }]⟩

theorem json_roundTrip_looseOrders :
    ofJson? looseOrders = some orders ∧ ofJson? orders.toJson = some orders := by
  have read : ofJson? looseOrders = some orders := by decide
  exact ⟨read, json_roundTrip.2 looseOrders orders read⟩

end Statement

end TableShift
