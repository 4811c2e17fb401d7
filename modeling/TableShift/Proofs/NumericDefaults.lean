import TableShift.Proofs.BatchRuns
import TableShift.Proofs.ColumnReading
import TableShift.Proofs.NumeralTokens
import TableShift.Proofs.Remarks

/-! # Numeric defaults

A numeral behind `DEFAULT` is meant to be written back as it stands, between quotes. A new table
and a clause that adds a column both take one token for the default. So a numeral that is one
token survives, and of any other numeral only its first token is left: digits are written as
another number, and a sign or a point is no value in a new table and no number in a clause.
-/

namespace TableShift

open Lexeme

/-! ## Texts before a blank -/

theorem Gap.leading_append_blank {cs : List Char} (returns : ReturnsFeed cs)
    (visible : (leading cs).2 ≠ []) (closed : startsComment (leading cs).2 = false)
    (more : List Char) :
    leading (cs ++ ' ' :: more) = ((leading cs).1, (leading cs).2 ++ ' ' :: more) := by
  have shut : opens (leading cs).2 = false :=
    (returns.of_suffix (leading_suffix cs)).closed (piece?_leading cs) closed
  rw [← List.append_nil (leading cs).2] at shut
  have before := (before_leading cs).append visible (' ' :: more)
  have skipped := leading_of_before before (opens_append_blank visible shut more)
  rwa [← List.append_assoc, leading_append] at skipped

theorem Lexeme.scanFrom_append_blank (offset : Nat) {cs : List Char} {ls : List Lexeme}
    (returns : Gap.ReturnsFeed cs) (h : scanFrom offset cs = .ok ls)
    (ends : (ls.getLast?.map stop).getD offset = offset + byteLength cs) (more : List Char) :
    scanFrom offset (cs ++ ' ' :: more) =
      (scanFrom (offset + byteLength cs) (' ' :: more)).map (ls ++ ·) := by
  -- Along the text, a gap and a token at a time.
  induction size : cs.length using Nat.strongRecOn generalizing offset cs ls with
  | ind _ ih =>
      rcases exists_of_scanFrom h with ⟨ended, rfl⟩ | ⟨s, later, closed, found, read, rfl⟩
      · have empty : cs = [] := by
          by_contra nonempty
          have positive := byteLength_pos nonempty
          simp at ends
          omega
        subst empty
        exact (congrFun Except.map_id _).symm
      · have visible : (Gap.leading cs).2 ≠ [] := by
          intro ended
          rw [ended] at found
          contradiction
        have gap := Gap.leading_append_blank returns visible closed more
        have shorter := Nat.lt_of_lt_of_le (Scan.length_lt_of_token? found)
          (Gap.length_leading_le cs)
        have behind : s.rest <:+ cs :=
          .trans ⟨s.taken, (Scan.splits_of_token? found).1⟩ (Gap.leading_suffix cs)
        have last : (later.getLast?.map stop).getD (ofScan offset (Gap.leading cs).1 s).stop =
            (ofScan offset (Gap.leading cs).1 s).stop + byteLength s.rest := by
          rw [Option.getD_map, stop_ofScan_add offset found, ← ends, List.getLast?_cons]
          rfl
        have others := ih _ (size ▸ shorter) _ (returns.of_suffix behind) read last rfl
        rw [stop_ofScan_add offset found] at others
        calc
          scanFrom offset (cs ++ ' ' :: more)
          _ = (scanFrom (ofScan offset (Gap.leading cs).1 s).stop (s.rest ++ ' ' :: more)).map
                (ofScan offset (Gap.leading cs).1 s :: ·) :=
              scanFrom_of_token offset gap ((startsComment_followed _ _).trans closed)
                (Scan.token?_followed rfl _ found)
          _ = _ := by
              rw [others]
              cases scanFrom (offset + byteLength cs) (' ' :: more) <;> rfl

/-! ## Statements with a numeral at their end -/

/-- A text up to the keyword before a numeral, and what it is read as. -/
structure Opening (text : String) (words : List Lexeme) : Prop where
  read : scanFrom 0 text.toList = .ok words
  single : mergeCompounds words = words
  returns : Gap.ReturnsFeed text.toList
  ends : (words.getLast?.map Lexeme.stop).getD 0 = byteLength text.toList
  uncut : ∀ l ∈ words, l.token.isPunct ';' = false

theorem Lexeme.mergeCompounds_of_plain {ls : List Lexeme}
    (plain : ∀ l ∈ ls, l.token.keyword? = none) : mergeCompounds ls = ls := by
  induction ls with
  | nil => rw [mergeCompounds]
  | cons l ls ih =>
      rw [List.forall_mem_cons] at plain
      have merged := mergeCompounds_append plain.1 [] ls
      rw [ih plain.2] at merged
      simpa [mergeCompounds] using merged

theorem Script.parse_of_uncut {script : String} {ls : List Lexeme}
    (tokens : tokenize script = .ok ls) (uncut : ∀ l ∈ ls, l.token.isPunct ';' = false) :
    parse script = (Cursor.ofSlice ls).statement.map Option.toList := by
  simp only [parse, tokens, chunks_of_uncut uncut, statements]
  cases (Cursor.ofSlice ls).statement with
  | error e => rfl
  | ok found => exact congrArg Except.ok (List.append_nil _)

namespace NumeralSyntax

variable {n : NumeralSyntax} {first : Lexeme} {ls : List Lexeme}

theorem ReadAs.neutral_cons (h : n.ReadAs first ls) : ∀ l ∈ first :: ls, l.token.Neutral := by
  refine List.forall_mem_cons.mpr ⟨?_, h.neutral⟩
  obtain ⟨lead, leads, _⟩ := h.leads
  generalize first.token = token at leads
  cases leads with
  | number plain => exact .literal _
  | word numeral whole => exact .identifier _
  | mark listed short =>
      refine .mark ?_
      rcases listed with rfl | rfl
      · decide
      · decide

/-- A statement with a numeral at its end is read from what stands before the numeral, the
    numeral's first token, and others that mean nothing to a column. -/
theorem exists_parse (n : NumeralSyntax) {text : String} {words : List Lexeme}
    (opening : Opening text words) {closing : List Char} (closes : Closing closing)
    {script : String} (written : script.toList = text.toList ++ ' ' :: (n.chars ++ closing)) :
    ∃ first ls last, n.ReadAs first ls ∧ last.map token = closing.map .punct ∧
      Script.parse script =
        (Cursor.ofSlice (words ++ first :: (ls ++ last))).statement.map Option.toList := by
  obtain ⟨first, ls, last, scanned, read, marks⟩ := n.exists_scanFrom closes
    (0 + byteLength text.toList)
  have ends : (words.getLast?.map Lexeme.stop).getD 0 = 0 + byteLength text.toList := by
    rw [Nat.zero_add, opening.ends]
  have whole := scanFrom_append_blank 0 opening.returns opening.read ends (n.chars ++ closing)
  rw [scanned, ← written] at whole
  have punct : ∀ l ∈ last, l.token.keyword? = none ∧ l.token.isPunct ';' = false := by
    intro l member
    have listed : l.token ∈ closing.map Token.punct := marks ▸ List.mem_map_of_mem member
    cases closes with
    | text => simp at listed
    | body =>
        rw [List.mem_singleton.mp listed]
        exact ⟨rfl, rfl⟩
  have plain : ∀ l ∈ ls ++ last, l.token.keyword? = none :=
    List.forall_mem_append.mpr ⟨fun l member => (read.neutral l member).keyword?_eq_none,
      fun l member => (punct l member).1⟩
  have head := (read.neutral_cons first List.mem_cons_self).keyword?_eq_none
  have tokens : tokenize script = .ok (words ++ first :: (ls ++ last)) := by
    rw [tokenize, whole]
    simp only [Except.map]
    rw [mergeCompounds_append head, opening.single, mergeCompounds_of_plain plain]
  have uncut : ∀ l ∈ words ++ first :: (ls ++ last), l.token.isPunct ';' = false := by
    rw [← List.cons_append, List.forall_mem_append, List.forall_mem_append]
    exact ⟨opening.uncut,
      fun l member => (read.neutral_cons l member).isPunct_eq_false (by decide),
      fun l member => (punct l member).2⟩
  exact ⟨first, ls, last, read, marks, Script.parse_of_uncut tokens uncut⟩

end NumeralSyntax

/-! ## Reading what means nothing to a column -/

theorem Cursor.columnTail_of_plain (column : String) (stop : Nat) {ls : List Lexeme}
    (plain : ∀ l ∈ ls, l.token.keyword? = none) : columnTail column ⟨ls, stop⟩ = .ok {} := by
  induction ls with
  | nil => exact columnTail_nil column rfl
  | cons l ls ih =>
      rw [List.forall_mem_cons] at plain
      rw [columnTail_cons column rfl, plain.1]
      exact ih plain.2

namespace Lexeme

theorem solid_of_neutral {ls : List Lexeme} (neutral : ∀ l ∈ ls, l.token.Neutral) : Solid ls := by
  induction ls with
  | nil => exact .nil
  | cons l ls ih =>
      rw [List.forall_mem_cons] at neutral
      have other {c : Char} (h : c ∉ ['+', '-', '.']) : l.token.isPunct c = false :=
        neutral.1.isPunct_eq_false h
      exact .flat ⟨other (by decide), other (by decide)⟩ (other (by decide)) (ih neutral.2)

theorem introducesName_of_plain {l : Lexeme} (plain : l.token.keyword? = none) :
    l.introducesName = false := by
  rw [introducesName, List.any_eq_false]
  intro word _ found
  rw [Token.isKeyword_iff.mp found] at plain
  cases plain

theorem clauseTokens_neutral {ls : List Lexeme} (neutral : ∀ l ∈ ls, l.token.Neutral) :
    clauseTokens 0 false ls = ls.map token := by
  induction ls with
  | nil => rfl
  | cons l ls ih =>
      rw [List.forall_mem_cons] at neutral
      have flat : l.Flat :=
        ⟨neutral.1.isPunct_eq_false (by decide), neutral.1.isPunct_eq_false (by decide)⟩
      rw [clauseTokens, depthAfter_flat flat, introducesName_of_plain neutral.1.keyword?_eq_none,
        ih neutral.2]
      rfl

end Lexeme

theorem Cursor.createTable_column {table opening closing : Lexeme} {name : String}
    {body : List Lexeme} (named : table.token = .identifier name)
    (opens : opening.token = .punct '(') (solid : Solid body) (nonempty : body ≠ [])
    (unkeyed : (ofSlice body).atAnyKeyword keyClauseWords = false)
    (closes : closing.token = .punct ')') (stop : Nat) :
    createTable ⟨table :: opening :: (body ++ [closing]), stop⟩ =
      (column (ofSlice body)).map fun field => ⟨name, [field]⟩ := by
  have start : skipKeyword ⟨table :: opening :: (body ++ [closing]), stop⟩ "IF NOT EXISTS" =
      ⟨table :: opening :: (body ++ [closing]), stop⟩ := by
    simp [skipKeyword, atKeyword, named, Token.isKeyword]
  have read : Cursor.name ⟨table :: opening :: (body ++ [closing]), stop⟩ =
      .ok (name, ⟨opening :: (body ++ [closing]), stop⟩) := by
    simp [Cursor.name, nameFrom, name?, named, opens, Token.isPunct]
  have group := group_balanced opens solid.balanced closes [] stop
  have parts : commaParts body = [body] :=
    commaParts_solid (.one body) (by simpa using nonempty) (by simpa using solid)
  have fields : definitions [body] = (column (ofSlice body)).map ([·]) := by
    rw [definitions, definition, unkeyed]
    cases column (ofSlice body) <;> rfl
  simp only [createTable, start, read, group, parts, fields, bind, Except.bind]
  cases column (ofSlice body) <;> rfl

/-! ## Two statements -/

namespace NumericDefault

/-- `c DOUBLE DEFAULT` at a place of a text. -/
def columnWords (start : Nat) : List Lexeme := [
  ⟨.identifier "c", "c", start, start + 1⟩, ⟨.keyword "DOUBLE", "DOUBLE", start + 2, start + 8⟩,
  ⟨.keyword "DEFAULT", "DEFAULT", start + 9, start + 16⟩]

/-- `CREATE TABLE t (c DOUBLE DEFAULT` -/
def creationWords : List Lexeme :=
  ⟨.keyword "CREATE", "CREATE", 0, 6⟩ :: ⟨.keyword "TABLE", "TABLE", 7, 12⟩ ::
    ⟨.identifier "t", "t", 13, 14⟩ :: ⟨.punct '(', "(", 15, 16⟩ :: columnWords 16

/-- `ALTER TABLE t ADD c DOUBLE DEFAULT` -/
def additionWords : List Lexeme :=
  ⟨.keyword "ALTER", "ALTER", 0, 5⟩ :: ⟨.keyword "TABLE", "TABLE", 6, 11⟩ ::
    ⟨.identifier "t", "t", 12, 13⟩ :: ⟨.keyword "ADD", "ADD", 14, 17⟩ :: columnWords 18

theorem opening_creationWords : Opening "CREATE TABLE t (c DOUBLE DEFAULT" creationWords where
  read := by decide +kernel
  single := by decide +kernel
  returns := by decide +kernel
  ends := by decide +kernel
  uncut := by decide +kernel

theorem opening_additionWords : Opening "ALTER TABLE t ADD c DOUBLE DEFAULT" additionWords where
  read := by decide +kernel
  single := by decide +kernel
  returns := by decide +kernel
  ends := by decide +kernel
  uncut := by decide +kernel

theorem solid_columnWords (start : Nat) : Solid (columnWords start) :=
  .flat ⟨rfl, rfl⟩ rfl (.flat ⟨rfl, rfl⟩ rfl (.flat ⟨rfl, rfl⟩ rfl .nil))

/-- The column `c` with this default. -/
def defaultField (value : Value) : Field where
  name := some "c"
  type := some { name := "DOUBLE" }
  options := [.keyValue "DEFAULT" value]

/-- The clause that adds the column `c`, with these tokens behind `DEFAULT`. -/
def addition (tokens : List Token) : AlterOperation where
  options := ["ADD"]
  field := some "c"
  tokens := .identifier "c" :: .keyword "DOUBLE" :: .keyword "DEFAULT" :: tokens

section Reading

variable {first : Lexeme} {ls : List Lexeme}

theorem column_columnWords (start stop : Nat) :
    Cursor.column ⟨columnWords start ++ first :: ls, stop⟩ =
      (Cursor.columnTail "c" ⟨(columnWords start).drop 2 ++ first :: ls, stop⟩).map fun tail =>
        ⟨some "c", some ⟨"DOUBLE", [], tail.typeOptions⟩, tail.options, tail.key⟩ := by
  generalize found : Cursor.columnTail "c" ⟨(columnWords start).drop 2 ++ first :: ls, stop⟩ = tail
  have read : Cursor.column ⟨columnWords start ++ first :: ls, stop⟩ = tail >>= fun tail =>
      .ok ⟨some "c", some ⟨"DOUBLE", [], tail.typeOptions⟩, tail.options, tail.key⟩ := by
    rw [← found]
    rfl
  rw [read]
  cases tail <;> rfl

variable (neutral : ∀ l ∈ first :: ls, l.token.Neutral)
include neutral

theorem statement_creation {closing : Lexeme} (closes : closing.token = .punct ')') :
    (Cursor.ofSlice (creationWords ++ first :: (ls ++ [closing]))).statement =
      (Cursor.column (.ofSlice (columnWords 16 ++ first :: ls))).map fun field =>
        some (.create ⟨"t", [field]⟩) := by
  have solid : Solid (columnWords 16 ++ first :: ls) :=
    (solid_columnWords 16).append (solid_of_neutral neutral)
  generalize start : Cursor.ofSlice (creationWords ++ first :: (ls ++ [closing])) = c
  have create : c.atKeyword "CREATE" = true := by rw [← start]; rfl
  have permanent : c.next.skipKeyword "TEMPORARY" = c.next := by rw [← start]; rfl
  have tables : c.next.atKeyword "TABLE" = true := by rw [← start]; rfl
  have read : c.next.next.createTable =
      (Cursor.column (.ofSlice (columnWords 16 ++ first :: ls))).map
        fun field => ⟨"t", [field]⟩ := by
    rw [← start]
    exact Cursor.createTable_column rfl rfl solid (by simp) rfl closes _
  simp only [Cursor.statement, create, permanent, tables, if_true, read]
  cases Cursor.column (.ofSlice (columnWords 16 ++ first :: ls)) <;> rfl

theorem column_value (start stop : Nat) (visible : ∀ mark, first.token ≠ .punct mark) :
    Cursor.column ⟨columnWords start ++ first :: ls, stop⟩ =
      .ok (defaultField first.plainValue) := by
  rw [List.forall_mem_cons] at neutral
  have closed : opensGroup ls = false := by
    cases ls with
    | nil => rfl
    | cons l ls => exact (neutral.2 l List.mem_cons_self).isPunct_eq_false (by decide)
  have value := Cursor.optionValue_plain visible closed stop
  have others := Cursor.columnTail_of_plain "c" stop fun l member =>
    (neutral.2 l member).keyword?_eq_none
  have tail : Cursor.columnTail "c" ⟨(columnWords start).drop 2 ++ first :: ls, stop⟩ =
      .ok { options := [.keyValue "DEFAULT" first.plainValue] } := by
    rw [Cursor.columnTail_cons "c" rfl]
    change Cursor.optionValue ⟨first :: ls, stop⟩ >>= _ = _
    rw [value]
    change Except.map _ (Cursor.columnTail "c" ⟨ls, stop⟩) = _
    rw [others]
    rfl
  rw [column_columnWords, tail]
  rfl

theorem column_mark (start stop : Nat) {mark : Char} (given : first.token = .punct mark) :
    ∃ e, Cursor.column ⟨columnWords start ++ first :: ls, stop⟩ = .error e := by
  have unopened : mark ≠ '(' := by
    rintro rfl
    have closed := (neutral first List.mem_cons_self).isPunct_eq_false (c := '(') (by decide)
    simp [given, Token.isPunct] at closed
  have value : Cursor.optionValue ⟨first :: ls, stop⟩ =
      .error ⟨first.start, .unexpectedPunctuation mark⟩ := by
    simp [Cursor.optionValue, given, unopened, Cursor.complain, Cursor.position]
  refine ⟨⟨first.start, .unexpectedPunctuation mark⟩, ?_⟩
  rw [column_columnWords, Cursor.columnTail_cons "c" rfl]
  change Except.map _ (Cursor.optionValue ⟨first :: ls, stop⟩ >>= _) = _
  rw [value]
  rfl

theorem alterClause_addition (stop : Nat) :
    Cursor.alterClause ⟨additionWords.drop 3 ++ first :: ls, stop⟩ =
      .ok (addition (first.token :: ls.map token)) := by
  have tokens : namedRemainder (columnWords 18 ++ first :: ls) =
      (addition (first.token :: ls.map token)).tokens := by
    have behind := clauseTokens_neutral neutral
    change _ :: _ :: _ :: clauseTokens 0 false (first :: ls) = _
    rw [behind]
    rfl
  have read : Cursor.alterClause ⟨additionWords.drop 3 ++ first :: ls, stop⟩ =
      .ok ⟨["ADD"], some "c", namedRemainder (columnWords 18 ++ first :: ls)⟩ := rfl
  rw [read, tokens]
  rfl

theorem statement_addition :
    (Cursor.ofSlice (additionWords ++ first :: ls)).statement =
      .ok (some (.alter ⟨"t", [addition (first.token :: ls.map token)]⟩)) := by
  have solid : Solid (additionWords.drop 3 ++ first :: ls) :=
    .flat ⟨rfl, rfl⟩ rfl ((solid_columnWords 18).append (solid_of_neutral neutral))
  have parts : commaParts (additionWords.drop 3 ++ first :: ls) =
      [additionWords.drop 3 ++ first :: ls] :=
    commaParts_solid (.one _) (by simp) (List.forall_mem_singleton.mpr solid)
  generalize start : Cursor.ofSlice (additionWords ++ first :: ls) = c
  have alter : c.atKeyword "CREATE" = false ∧ c.atKeyword "ALTER" = true := by
    rw [← start]
    exact ⟨rfl, rfl⟩
  have strict : c.next.skipKeyword "IGNORE" = c.next := by rw [← start]; rfl
  have tables : c.next.atKeyword "TABLE" = true := by rw [← start]; rfl
  have name : c.next.next.name = .ok ("t", c.next.next.next) := by rw [← start]; rfl
  have rest : c.next.next.next.rest = additionWords.drop 3 ++ first :: ls := by rw [← start]; rfl
  have clauses : Cursor.alterClauses [additionWords.drop 3 ++ first :: ls] =
      .ok [addition (first.token :: ls.map token)] := by
    rw [Cursor.alterClauses]
    simp only [Cursor.ofSlice, alterClause_addition neutral]
    rfl
  have read : c.next.next.alterTable = .ok ⟨"t", [addition (first.token :: ls.map token)]⟩ := by
    simp only [Cursor.alterTable, name, bind, Except.bind, rest, parts, clauses]
    rfl
  simp only [Cursor.statement, alter, strict, tables, if_true, Bool.false_eq_true, if_false, read]
  rfl

end Reading

/-! ## What is written -/

/-- The column `c` with an argument for its default. -/
def defaultCommand (argument : String) : TableCommand :=
  .column ⟨⟨"DOUBLE", "double", false⟩, "c", none⟩
    [⟨⟨"DEFAULT", "default", .default⟩, argument⟩, ⟨⟨"NOT NULL", "nullable", .none⟩, ""⟩] false

theorem up_defaultField (value : Value) :
    (Statement.create ⟨"t", [defaultField value]⟩).step.up =
      [.create "t" [defaultCommand (defaultArgument value)]] := by
  rfl

theorem effect?_addition (value : Token) {tokens : List Token}
    (plain : ∀ token ∈ tokens, token.keyword? = none) :
    (addition (value :: tokens)).effect? "t" =
      some ⟨[defaultCommand (defaultArgument value.toValue)], .drop .dropColumn (.name "c"),
        "t"⟩ := by
  have scanned : ColumnClause.scan (.keyword "DOUBLE" :: .keyword "DEFAULT" :: value :: tokens) =
      ⟨some "DOUBLE", [], [.keyValue "DEFAULT" value.toValue]⟩ := by
    have typed : ColumnClause.scan (.keyword "DOUBLE" :: .keyword "DEFAULT" :: value :: tokens) =
        ColumnClause.scanFrom ⟨some "DOUBLE", [], []⟩ (.keyword "DEFAULT" :: value :: tokens) := rfl
    have others := ColumnClause.scanFrom_skip
      ⟨some "DOUBLE", [], [.keyValue "DEFAULT" value.toValue]⟩ plain []
    rw [List.append_nil] at others
    rw [typed, ColumnClause.scanFrom_value _ (by decide +kernel) (by decide +kernel)]
    exact others
  have effect : (addition (value :: tokens)).effect? "t" =
      (addition (value :: tokens)).columnEffect? "t" (addition (value :: tokens)).tokens
        false := rfl
  rw [effect]
  simp only [addition, AlterOperation.columnEffect?, scanned]
  rfl

theorem up_addition (value : Token) {tokens : List Token}
    (plain : ∀ token ∈ tokens, token.keyword? = none) :
    (Statement.alter ⟨"t", [addition (value :: tokens)]⟩).step.up =
      [.alter "t" [defaultCommand (defaultArgument value.toValue)]] := by
  simp [Statement.step, AlterTable.step, AlterTable.effects, effect?_addition value plain]

/-- The code of a block with the column `c` in it, with an argument for its default. -/
def blockText (method : String) (indent : Nat) (argument : String) : String :=
  "\n".intercalate [
    "Schema::" ++ method ++ "('t', function (Blueprint $table) \x7b",
    tabs (indent + 1) ++ "$table->double('c')",
    tabs (indent + 2) ++ ("->default(" ++ argument ++ ")"),
    tabs (indent + 2) ++ "->nullable();",
    tabs indent ++ "\x7d);"]

theorem blockText_inj {method x y : String} {indent : Nat}
    (h : blockText method indent x = blockText method indent y) : x = y := by
  simp only [blockText, String.intercalate_cons_cons, String.append_assoc, String.append_right_inj,
    String.append_left_inj] at h
  exact h

theorem lines_defaultCommand (argument : String) :
    (defaultCommand argument).lines =
      [⟨0, "$table->double('c')"⟩, ⟨1, "->default(" ++ argument ++ ")"⟩, ⟨1, "->nullable();"⟩] := by
  have declared : (⟨⟨"DOUBLE", "double", false⟩, "c", none⟩ : Declaration).code =
      "$table->double('c')" := by decide +kernel
  have called : "->" ++ "default" ++ "(" = "->default(" := by decide +kernel
  have nullable : "->" ++ "nullable" ++ "(" ++ "" ++ ")" ++ ";" = "->nullable();" := by
    decide +kernel
  simp only [defaultCommand, TableCommand.lines, declared, List.map_cons, List.map_nil,
    ModifierCall.code, called, Line.pushLast, nullable, Bool.false_eq_true, if_false,
    List.append_nil]

theorem code_block (method : String) (indent : Nat) (argument : String) {command : SchemaCommand}
    (block : command.lines = SchemaCommand.blockLines method "t" [defaultCommand argument]) :
    SchemaCommand.code indent [command] = blockText method indent argument := by
  have opening : "Schema::" ++ method ++ "(" ++ quote "t" ++ ", function (Blueprint $table) \x7b" =
      "Schema::" ++ method ++ "('t', function (Blueprint $table) \x7b" := by
    have closed : "(" ++ (quote "t" ++ ", function (Blueprint $table) \x7b") =
        "('t', function (Blueprint $table) \x7b" := by decide +kernel
    rw [← closed]
    simp only [String.append_assoc]
  have lines : [command].flatMap SchemaCommand.lines =
      ⟨0, "Schema::" ++ method ++ "('t', function (Blueprint $table) \x7b"⟩ ::
        [⟨1, "$table->double('c')"⟩, ⟨2, "->default(" ++ argument ++ ")"⟩, ⟨2, "->nullable();"⟩,
          ⟨0, "\x7d);"⟩] := by
    rw [List.flatMap_singleton, block, SchemaCommand.blockLines, opening, List.flatMap_singleton,
      lines_defaultCommand]
    rfl
  have visible : "Schema::" ++ method ++ "('t', function (Blueprint $table) \x7b" ≠ "" := by
    rw [String.append_assoc]
    exact fun empty => absurd (String.append_eq_empty_iff.mp empty).1 (by decide)
  exact SchemaCommand.code_eq_intercalate indent lines visible

end NumericDefault

/-! ## Numerals as defaults -/

theorem defaultArgument_of_numeral {sql : String}
    (numeral : ∀ c ∈ sql.toList, isNumeralChar c = true) :
    defaultArgument (.expr sql) = if isNumeric sql then "\"" ++ sql ++ "\"" else sql := by
  have proper : sameFolded sql "NULL" = false := by
    rw [sameFolded, beq_eq_false_iff_ne]
    intro same
    have upper := isNumeralChar_upperAscii numeral 'N' (by rw [same]; decide)
    exact absurd upper (by decide)
  simp [defaultArgument, proper]

namespace NumeralSyntax

theorem argument_eq_iff (n : NumeralSyntax) {lead : List Char}
    (numeral : ∀ c ∈ lead, isNumeralChar c = true) :
    defaultArgument (.expr (.ofList lead)) = "\"" ++ n.text ++ "\"" ↔ lead = n.chars := by
  rw [defaultArgument_of_numeral (by simpa using numeral)]
  constructor
  · intro same
    split at same
    · rw [String.append_left_inj, String.append_right_inj] at same
      simpa [text] using congrArg String.toList same
    · have quoted : '"' ∈ (String.ofList lead).toList := by
        rw [same]
        simp
      exact absurd (numeral '"' (by simpa using quoted)) (by decide)
  · rintro rfl
    rw [← text, n.isNumeric_text, if_pos rfl]

variable {n : NumeralSyntax} {first : Lexeme} {ls : List Lexeme}

theorem ReadAs.argument_iff (read : n.ReadAs first ls) :
    defaultArgument first.token.toValue = "\"" ++ n.text ++ "\"" ↔ n.Plain := by
  obtain ⟨lead, leads, -⟩ := read.leads
  generalize first.token = token at leads
  cases leads with
  | number plain => exact iff_of_true rfl plain
  | word numeral whole => exact (n.argument_eq_iff numeral).trans whole
  | @mark c listed short =>
      have mark : isNumeralChar c = true ∧ isNumeric (.ofList [c]) = false := by
        rcases listed with rfl | rfl
        · decide
        · decide
      have part : [c] ≠ n.chars := by
        intro same
        have numeric := n.isNumeric_text
        rw [text, ← same, mark.2] at numeric
        contradiction
      have written := n.argument_eq_iff (List.forall_mem_singleton.mpr mark.1)
      rw [← String.singleton_eq_ofList] at written
      exact written.trans (iff_of_false part short)

theorem ReadAs.not_plain_of_mark (read : n.ReadAs first ls) {c : Char}
    (mark : first.token = .punct c) : ¬ n.Plain := by
  obtain ⟨lead, leads, -⟩ := read.leads
  rw [mark] at leads
  cases leads with
  | mark listed short => exact short

/-- A number or a word is the same value in a new table and in a clause. -/
theorem ReadAs.plainValue_eq (read : n.ReadAs first ls)
    (visible : ∀ mark, first.token ≠ .punct mark) : first.plainValue = first.token.toValue := by
  obtain ⟨lead, leads, raw⟩ := read.leads
  generalize given : first.token = token at leads
  cases leads with
  | number plain => simp [plainValue, given, Token.toValue]
  | mark listed short => exact absurd given (visible _)
  | word numeral whole => simp [plainValue, given, Token.toValue, Token.sql, raw]

end NumeralSyntax

/-- Whether a script is read, and code with these texts is written for its statements. -/
def Script.Writes (script : String) (indent : Nat) (texts : List String) : Prop :=
  ∃ found, parse script = .ok found ∧ (Migration.each found indent).map Migration.up = texts

theorem Script.writes_of_parse {script : String} {statement : Statement} (indent : Nat)
    (read : parse script = .ok [statement]) (texts : List String) :
    Writes script indent texts ↔ [SchemaCommand.code indent statement.step.up] = texts := by
  have written : (Migration.each [statement] indent).map Migration.up =
      [SchemaCommand.code indent statement.step.up] := by
    simp [Migration.each_eq_map, Migration.squash_singleton]
  simp [Writes, read, written]

namespace NumeralSyntax

open NumericDefault

variable (n : NumeralSyntax)

theorem writes_creation_iff (indent : Nat) :
    Script.Writes ("CREATE TABLE t (c DOUBLE DEFAULT " ++ n.text ++ ")") indent
      [blockText "create" indent ("\"" ++ n.text ++ "\"")] ↔ n.Plain := by
  have written : ("CREATE TABLE t (c DOUBLE DEFAULT " ++ n.text ++ ")").toList =
      "CREATE TABLE t (c DOUBLE DEFAULT".toList ++ ' ' :: (n.chars ++ [')']) := by
    simp [text]
  obtain ⟨first, ls, last, read, marks, parsed⟩ :=
    n.exists_parse opening_creationWords .body written
  obtain ⟨closing, rfl, closes⟩ : ∃ l, last = [l] ∧ l.token = .punct ')' := by
    simpa [List.map_eq_cons_iff] using marks
  have neutral := read.neutral_cons
  rw [statement_creation neutral closes] at parsed
  by_cases mark : ∃ c, first.token = .punct c
  · obtain ⟨c, mark⟩ := mark
    obtain ⟨e, failed⟩ : ∃ e, Cursor.column (.ofSlice (columnWords 16 ++ first :: ls)) = .error e :=
      column_mark neutral 16 _ mark
    rw [failed] at parsed
    refine iff_of_false ?_ (read.not_plain_of_mark mark)
    rintro ⟨found, accepted, -⟩
    rw [parsed] at accepted
    cases accepted
  · have visible : ∀ c, first.token ≠ .punct c := fun c given => mark ⟨c, given⟩
    have field : Cursor.column (.ofSlice (columnWords 16 ++ first :: ls)) =
        .ok (defaultField first.plainValue) := column_value neutral 16 _ visible
    rw [field] at parsed
    rw [Script.writes_of_parse indent parsed, up_defaultField, code_block "create" indent _ rfl,
      ← read.argument_iff, ← read.plainValue_eq visible]
    simp only [List.cons.injEq, and_true]
    exact ⟨blockText_inj, congrArg _⟩

theorem writes_addition_iff (indent : Nat) :
    Script.Writes ("ALTER TABLE t ADD c DOUBLE DEFAULT " ++ n.text) indent
      [blockText "table" indent ("\"" ++ n.text ++ "\"")] ↔ n.Plain := by
  have written : ("ALTER TABLE t ADD c DOUBLE DEFAULT " ++ n.text).toList =
      "ALTER TABLE t ADD c DOUBLE DEFAULT".toList ++ ' ' :: (n.chars ++ []) := by
    simp [text]
  obtain ⟨first, ls, last, read, marks, parsed⟩ :=
    n.exists_parse opening_additionWords .text written
  obtain rfl : last = [] := by simpa using marks
  have plain : ∀ value ∈ ls.map token, value.keyword? = none :=
    List.forall_mem_map.mpr fun l member => (read.neutral l member).keyword?_eq_none
  rw [List.append_nil, statement_addition read.neutral_cons] at parsed
  rw [Script.writes_of_parse indent parsed, up_addition first.token plain,
    code_block "table" indent _ rfl, ← read.argument_iff]
  simp only [List.cons.injEq, and_true]
  exact ⟨blockText_inj, congrArg _⟩

/-- A numeric default survives in a new table and in a clause exactly if it is one token. -/
theorem default_survives_iff (indent : Nat) :
    isNumeric n.text = true ∧
      (Script.Writes ("CREATE TABLE t (c DOUBLE DEFAULT " ++ n.text ++ ")") indent
        [blockText "create" indent ("\"" ++ n.text ++ "\"")] ↔ n.Plain) ∧
      (Script.Writes ("ALTER TABLE t ADD c DOUBLE DEFAULT " ++ n.text) indent
        [blockText "table" indent ("\"" ++ n.text ++ "\"")] ↔ n.Plain) :=
  ⟨n.isNumeric_text, n.writes_creation_iff indent, n.writes_addition_iff indent⟩

/-- `1.5e3` -/
def thousands : NumeralSyntax where
  negative := false
  whole := ['1']
  fraction := some ['5']
  exponent := some ⟨'e', none, ['3'], by decide, by simp, by simp,
    List.forall_mem_singleton.mpr rfl⟩
  wholeDigits := List.forall_mem_singleton.mpr rfl
  fractionDigits := by
    rintro _ ⟨⟩
    exact List.forall_mem_singleton.mpr rfl
  nonempty := .inl (by simp)

/-- Of `1.5e3` the digits before the point are left. -/
theorem default_truncated_thousands :
    thousands.text = "1.5e3" ∧
      Script.Writes "CREATE TABLE t (c DOUBLE DEFAULT 1.5e3)" 0 [blockText "create" 0 "\"1\""] ∧
      ¬ Script.Writes "CREATE TABLE t (c DOUBLE DEFAULT 1.5e3)" 0
        [blockText "create" 0 "\"1.5e3\""] := by
  have read : Script.parse "CREATE TABLE t (c DOUBLE DEFAULT 1.5e3)" =
      .ok [.create ⟨"t", [defaultField (.expr "1")]⟩] := by
    decide +kernel
  have up : (Migration.each [.create ⟨"t", [defaultField (.expr "1")]⟩] 0).map Migration.up =
      [blockText "create" 0 "\"1\""] := by
    decide +kernel
  refine ⟨by decide +kernel, ⟨_, read, up⟩, ?_⟩
  rintro ⟨found, again, texts⟩
  obtain rfl := Except.ok.inj (read.symm.trans again)
  rw [up] at texts
  exact absurd texts (by decide +kernel)

end NumeralSyntax

end TableShift
