import TableShift.Proofs.BatchRuns
import TableShift.Proofs.UnbrokenLines

/-! # Indentation

The code of a batch at some tab level is its code at level zero with so many tabs behind
each line feed, unless another line feed follows: empty lines between blocks stay empty. It
holds for the lines of a block, which no text of a statement may break, and again for the
blocks of a batch.
-/

namespace TableShift

/-! ## Tabs behind line feeds -/

/-- Puts tabs behind each line feed that no other one follows at once. -/
def tabsAfterFeeds (n : Nat) : List Char → List Char
  | [] => []
  | c :: cs =>
    if c = '\n' ∧ cs.head? ≠ some '\n' then c :: (List.replicate n '\t' ++ tabsAfterFeeds n cs)
    else c :: tabsAfterFeeds n cs

/-- A text with tabs behind each line feed that no other one follows at once. -/
def indentText (n : Nat) (text : String) : String :=
  .ofList (tabsAfterFeeds n text.toList)

/-- A text that begins and ends, with other characters than line feeds. -/
structure Edged (text : String) : Prop where
  begins : ∃ c, text.toList.head? = some c ∧ c ≠ '\n'
  ends : text.toList.getLast? ≠ some '\n'

theorem tabsAfterFeeds_unbroken (n : Nat) {cs : List Char} (h : '\n' ∉ cs) :
    tabsAfterFeeds n cs = cs := by
  induction cs with
  | nil => rfl
  | cons c cs ih =>
      rw [List.mem_cons, not_or] at h
      rw [tabsAfterFeeds, if_neg fun feed => h.1 feed.1.symm, ih h.2]

theorem tabsAfterFeeds_append (n : Nat) {cs : List Char} (ends : cs.getLast? ≠ some '\n')
    (more : List Char) :
    tabsAfterFeeds n (cs ++ more) = tabsAfterFeeds n cs ++ tabsAfterFeeds n more := by
  induction cs with
  | nil => rfl
  | cons c cs ih =>
      cases cs with
      | nil =>
          have other : c ≠ '\n' := by simpa using ends
          simp [tabsAfterFeeds, other]
      | cons d cs =>
          have later := ih (by simpa using ends)
          have head : (d :: cs ++ more).head? = (d :: cs).head? := rfl
          rw [List.cons_append, tabsAfterFeeds, tabsAfterFeeds, later, head]
          by_cases feed : c = '\n' ∧ (d :: cs).head? ≠ some '\n'
          · rw [if_pos feed, if_pos feed, List.cons_append, List.append_assoc]
          · rw [if_neg feed, if_neg feed, List.cons_append]

/-- Of line feeds in a row the last one has the tabs behind it. -/
theorem tabsAfterFeeds_feeds (n k : Nat) {cs : List Char} (begins : cs.head? ≠ some '\n') :
    tabsAfterFeeds n (List.replicate (k + 1) '\n' ++ cs) =
      List.replicate (k + 1) '\n' ++ (List.replicate n '\t' ++ tabsAfterFeeds n cs) := by
  induction k with
  | zero => simp [tabsAfterFeeds, begins]
  | succ k ih =>
      have followed : (List.replicate (k + 1) '\n' ++ cs).head? = some '\n' := rfl
      rw [List.replicate_succ, List.cons_append, tabsAfterFeeds, followed, ih]
      simp

theorem indentText_unbroken (n : Nat) {text : String} (h : Unbroken text) :
    indentText n text = text := by
  rw [indentText, tabsAfterFeeds_unbroken n h, String.ofList_toList]

namespace Edged

theorem of_unbroken {text : String} (h : Unbroken text) (visible : text ≠ "") : Edged text := by
  have shown : text.toList ≠ [] := by simpa using visible
  obtain ⟨c, cs, split⟩ := List.exists_cons_of_ne_nil shown
  refine ⟨⟨c, by simp [split], fun feed => h ?_⟩, fun feed => h (List.mem_of_getLast? feed)⟩
  rw [split, feed]
  exact List.mem_cons_self ..

theorem append {a b : String} (ha : Edged a) (hb : Edged b) (between : String) :
    Edged (a ++ between ++ b) := by
  obtain ⟨c, first, other⟩ := ha.begins
  obtain ⟨d, next, -⟩ := hb.begins
  refine ⟨⟨c, by simp [first], other⟩, ?_⟩
  have visible : b.toList ≠ [] := fun empty => by simp [empty] at next
  rw [String.toList_append, List.getLast?_append_of_ne_nil _ visible]
  exact hb.ends

theorem intercalate (separator : String) {text : String} {texts : List String}
    (h : ∀ t ∈ text :: texts, Edged t) : Edged (separator.intercalate (text :: texts)) := by
  induction texts generalizing text with
  | nil => simpa using h
  | cons next texts ih =>
      rw [List.forall_mem_cons] at h
      rw [String.intercalate_cons_cons]
      exact h.1.append (ih h.2) separator

end Edged

theorem indentText_intercalate (n k : Nat) {separator : String}
    (feeds : separator.toList = List.replicate (k + 1) '\n') {text : String} {texts : List String}
    (h : ∀ t ∈ text :: texts, Edged t) :
    indentText n (separator.intercalate (text :: texts)) =
      (separator ++ tabs n).intercalate ((text :: texts).map (indentText n)) := by
  induction texts generalizing text with
  | nil => simp
  | cons next texts ih =>
      rw [List.forall_mem_cons] at h
      have rest := Edged.intercalate separator h.2
      have begins : (separator.intercalate (next :: texts)).toList.head? ≠ some '\n' := by
        obtain ⟨c, first, other⟩ := rest.begins
        rw [first]
        simpa using other
      have split : (separator.intercalate (text :: next :: texts)).toList =
          text.toList ++ (List.replicate (k + 1) '\n' ++
            (separator.intercalate (next :: texts)).toList) := by
        rw [String.intercalate_cons_cons, String.toList_append, String.toList_append, feeds,
          List.append_assoc]
      calc
        indentText n (separator.intercalate (text :: next :: texts))
        _ = .ofList (tabsAfterFeeds n text.toList ++ (separator.toList ++ (List.replicate n '\t' ++
              tabsAfterFeeds n (separator.intercalate (next :: texts)).toList))) := by
            rw [indentText, split, tabsAfterFeeds_append n h.1.ends,
              tabsAfterFeeds_feeds n k begins, feeds]
        _ = indentText n text ++ (separator ++ tabs n) ++
              indentText n (separator.intercalate (next :: texts)) := by
            simp only [String.ofList_append, String.ofList_toList, tabs, indentText,
              String.append_assoc]
        _ = (separator ++ tabs n).intercalate
              ((text :: next :: texts).map (indentText n)) := by
            rw [ih h.2, List.map_cons, List.map_cons, List.map_cons, String.intercalate_cons_cons]

/-! ## Blocks -/

theorem Line.code_eq_tabs_append (indent : Nat) (l : Line) :
    l.code indent = tabs indent ++ l.code 0 := by
  rw [code, code, tabs, tabs, tabs, Nat.zero_add, List.replicate_add, String.ofList_append,
    String.append_assoc]

theorem intercalate_map_append (separator front text : String) (texts : List String) :
    separator.intercalate (text :: texts.map (front ++ ·)) =
      (separator ++ front).intercalate (text :: texts) := by
  induction texts generalizing text with
  | nil => simp
  | cons next texts ih =>
      rw [List.map_cons, String.intercalate_cons_cons, ih (front ++ next),
        String.intercalate_cons_append, String.intercalate_cons_cons]
      simp only [String.append_assoc]

theorem unbroken_tabs (n : Nat) : Unbroken (tabs n) := by
  rw [Unbroken, tabs, String.toList_ofList, List.mem_replicate]
  exact fun feed => absurd feed.2 (by decide)

namespace Line.Solid

variable {l : Line}

theorem unbroken_code (h : l.Solid) : Unbroken (l.code 0) :=
  unbroken_append.mpr ⟨unbroken_tabs _, h.unbroken⟩

theorem edged (h : l.Solid) : Edged (l.code 0) := by
  refine .of_unbroken h.unbroken_code fun empty => ?_
  obtain ⟨noTabs, noText⟩ := String.append_eq_empty_iff.mp empty
  refine h.visible ?_ noText
  simpa [tabs] using noTabs

end Line.Solid

/-- The code of solid lines at a level is the code at level zero, indented. -/
theorem SchemaCommand.code_eq_indentText (indent : Nat) {commands : List SchemaCommand}
    (some_command : commands ≠ []) (solid : ∀ l ∈ commands.flatMap lines, l.Solid) :
    code indent commands = indentText indent (code 0 commands) ∧ Edged (code 0 commands) := by
  obtain ⟨command, rest, rfl⟩ := List.exists_cons_of_ne_nil some_command
  obtain ⟨first, more, lines, visible⟩ := command.exists_first_line
  have all : (command :: rest).flatMap SchemaCommand.lines =
      first :: (more ++ rest.flatMap SchemaCommand.lines) := by
    rw [List.flatMap_cons, lines, List.cons_append]
  rw [all, List.forall_mem_cons] at solid
  generalize more ++ rest.flatMap SchemaCommand.lines = ls at all solid
  have edged : ∀ t ∈ first.text :: ls.map (Line.code 0), Edged t := by
    rw [List.forall_mem_cons, List.forall_mem_map]
    exact ⟨.of_unbroken solid.1.unbroken visible, fun l listed => (solid.2 l listed).edged⟩
  have unchanged : (first.text :: ls.map (Line.code 0)).map (indentText indent) =
      first.text :: ls.map (Line.code 0) := by
    rw [List.map_cons, indentText_unbroken indent solid.1.unbroken, List.map_map]
    refine congrArg _ (List.map_congr_left fun l listed => ?_)
    exact indentText_unbroken indent (solid.2 l listed).unbroken_code
  have deeper : ls.map (Line.code indent) = (ls.map (Line.code 0)).map (tabs indent ++ ·) := by
    rw [List.map_map]
    exact List.map_congr_left fun l _ => l.code_eq_tabs_append indent
  rw [code_eq_intercalate 0 all visible]
  refine ⟨?_, .intercalate _ edged⟩
  calc
    code indent (command :: rest)
    _ = "\n".intercalate (first.text :: (ls.map (Line.code 0)).map (tabs indent ++ ·)) := by
        rw [code_eq_intercalate indent all visible, deeper]
    _ = ("\n" ++ tabs indent).intercalate (first.text :: ls.map (Line.code 0)) :=
        intercalate_map_append _ _ _ _
    _ = indentText indent ("\n".intercalate (first.text :: ls.map (Line.code 0))) := by
        rw [indentText_intercalate indent 0 rfl edged, unchanged]

/-! ## Batches -/

theorem Batch.joinBlocks_eq_indentText (indent : Nat) {blocks : List (List SchemaCommand)}
    (h : ∀ block ∈ blocks, block ≠ [] ∧ ∀ l ∈ block.flatMap SchemaCommand.lines, l.Solid) :
    joinBlocks indent (blocks.map (SchemaCommand.code indent)) =
      indentText indent (joinBlocks 0 (blocks.map (SchemaCommand.code 0))) := by
  have each (block : List SchemaCommand) (member : block ∈ blocks) :=
    SchemaCommand.code_eq_indentText indent (h block member).1 (h block member).2
  have visible (level : Nat) : ∀ text ∈ blocks.map (SchemaCommand.code level), text ≠ "" := by
    rw [List.forall_mem_map]
    exact fun block member => SchemaCommand.code_ne_empty level (h block member).1
  have indented : blocks.map (SchemaCommand.code indent) =
      (blocks.map (SchemaCommand.code 0)).map (indentText indent) := by
    rw [List.map_map]
    exact List.map_congr_left fun block member => (each block member).1
  have edged : ∀ text ∈ blocks.map (SchemaCommand.code 0), Edged text := by
    rw [List.forall_mem_map]
    exact fun block member => (each block member).2
  have flush : blockSeparator 0 = "\n\n" := by decide
  rw [joinBlocks_eq_intercalate indent (visible indent), joinBlocks_eq_intercalate 0 (visible 0),
    indented, flush, blockSeparator]
  generalize blocks.map (SchemaCommand.code 0) = texts at edged
  cases texts with
  | nil => simp [indentText, tabsAfterFeeds]
  | cons text texts => exact (indentText_intercalate indent 1 rfl edged).symm

/-- The code of a squashed migration at a level is its code at level zero with so many tabs
    behind each line feed that no other one follows at once, in both directions. -/
theorem Migration.squash_eq_indentText (statements : List Statement) (indent : Nat)
    (unbroken : ∀ s ∈ statements, AllUnbroken s.texts)
    (named : ∀ s ∈ statements, s ≠ .drop ⟨[]⟩) :
    (squash statements indent).up = indentText indent (squash statements 0).up ∧
      (squash statements indent).down = indentText indent (squash statements 0).down := by
  have up : ∀ block ∈ statements.map fun s => s.step.up,
      block ≠ [] ∧ ∀ l ∈ block.flatMap SchemaCommand.lines, l.Solid := by
    rw [List.forall_mem_map]
    exact fun s member =>
      ⟨(Statement.step_ne_nil (named s member)).1, (Statement.solid_lines (unbroken s member)).1⟩
  have down : ∀ block ∈ statements.reverse.map fun s => s.step.down,
      block ≠ [] ∧ ∀ l ∈ block.flatMap SchemaCommand.lines, l.Solid := by
    simp only [List.forall_mem_map, List.mem_reverse]
    exact fun s member =>
      ⟨(Statement.step_ne_nil (named s member)).2, (Statement.solid_lines (unbroken s member)).2⟩
  constructor
  · simpa only [squash_up _ _ named, List.map_map, Function.comp_def] using
      Batch.joinBlocks_eq_indentText indent up
  · simpa only [squash_down, List.map_map, Function.comp_def] using
      Batch.joinBlocks_eq_indentText indent down

/-- A table that is made, renamed with a column more, and dropped with another one. -/
def Migration.shortLived : List Statement := [
  .create ⟨"users", [⟨some "name", some ⟨"VARCHAR", ["50"], []⟩,
    [.flag "NOT NULL", .keyValue "DEFAULT" (.string "it's")], none⟩]⟩,
  .alter ⟨"users", [⟨["RENAME", "TO"], some "people", []⟩,
    ⟨["ADD"], none, [.identifier "age", .keyword "INT"]⟩]⟩,
  .drop ⟨["people", "teams"]⟩]

theorem Migration.squash_eq_indentText_shortLived :
    (squash shortLived 1).up = indentText 1 (squash shortLived 0).up ∧
      (squash shortLived 1).down = indentText 1 (squash shortLived 0).down ∧
      (squash shortLived 1).down =
        "// Revert manually: DROP TABLE people (previous definition unknown)\n" ++
        "\t// Revert manually: DROP TABLE teams (previous definition unknown)\n\n" ++
        "\tSchema::table('people', function (Blueprint $table) \x7b\n" ++
        "\t\t$table->dropColumn('age');\n\t\t$table->rename('users');\n\t\x7d);\n\n" ++
        "\tSchema::dropIfExists('users');" := by
  obtain ⟨up, down⟩ :=
    squash_eq_indentText shortLived 1 (by decide +kernel) (by decide +kernel)
  exact ⟨up, down, by decide +kernel⟩

end TableShift
