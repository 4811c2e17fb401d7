import TableShift.Sql.Script

/-! # Reading does not depend on positions

Positions are carried along and never compared or computed with once the lexemes are
there. So lexemes whose positions are all moved by one function are read as the same
statements, and a complaint about them moves by that function. Only the empty slice has
a position of its own, and nothing is complained about there.
-/

namespace TableShift

/-- The lexeme at moved positions. -/
def Lexeme.relocate (f : Nat → Nat) (l : Lexeme) : Lexeme :=
  { l with start := f l.start, stop := f l.stop }

/-- The same complaint at the moved position. -/
def SyntaxError.relocate (f : Nat → Nat) (e : SyntaxError) : SyntaxError :=
  { e with position := f e.position }

/-- The cursor in a slice at moved positions. -/
def Cursor.relocate (f : Nat → Nat) (c : Cursor) : Cursor :=
  ⟨c.rest.map (Lexeme.relocate f), f c.stop⟩

/-- The result of reading at moved positions: what was read, itself moved by `move`, or
    the complaint at its moved position. -/
def relocateResult {α : Type} (f : Nat → Nat) (move : α → α) :
    Except SyntaxError α → Except SyntaxError α
  | .ok a => .ok (move a)
  | .error e => .error (e.relocate f)

section Results

variable {α β : Type} (f : Nat → Nat)

@[simp]
theorem relocateResult_ok (move : α → α) (a : α) :
    relocateResult f move (.ok a) = .ok (move a) := rfl

@[simp]
theorem relocateResult_error (move : α → α) (e : SyntaxError) :
    relocateResult f move (.error e) = .error (e.relocate f) := rfl

theorem bind_relocateResult_of_ok {move : α → α} {move' : β → β} {x : Except SyntaxError α}
    {k k' : α → Except SyntaxError β}
    (h : ∀ a, x = .ok a → k' (move a) = relocateResult f move' (k a)) :
    (relocateResult f move x >>= k') = relocateResult f move' (x >>= k) := by
  cases x with
  | error e => rfl
  | ok a => exact h a rfl

theorem bind_relocateResult {move : α → α} {move' : β → β} {x : Except SyntaxError α}
    {k k' : α → Except SyntaxError β} (h : ∀ a, k' (move a) = relocateResult f move' (k a)) :
    (relocateResult f move x >>= k') = relocateResult f move' (x >>= k) :=
  bind_relocateResult_of_ok f fun a _ => h a

theorem map_relocateResult {move : α → α} {move' : β → β} {x : Except SyntaxError α}
    {g g' : α → β} (h : ∀ a, g' (move a) = move' (g a)) :
    (relocateResult f move x).map g' = relocateResult f move' (x.map g) := by
  cases x with
  | error e => rfl
  | ok a => exact congrArg Except.ok (h a)

end Results

/-! ## Lexemes -/

namespace Lexeme

variable (f : Nat → Nat)

@[simp]
theorem relocate_token (l : Lexeme) : (l.relocate f).token = l.token := rfl

@[simp]
theorem relocate_raw (l : Lexeme) : (l.relocate f).raw = l.raw := rfl

@[simp]
theorem relocate_start (l : Lexeme) : (l.relocate f).start = f l.start := rfl

@[simp]
theorem relocate_stop (l : Lexeme) : (l.relocate f).stop = f l.stop := rfl

@[simp]
theorem name?_relocate (l : Lexeme) : (l.relocate f).name? = l.name? := rfl

@[simp]
theorem asIdentifier_relocate (l : Lexeme) : (l.relocate f).asIdentifier = l.asIdentifier := rfl

@[simp]
theorem depthAfter_relocate (depth : Nat) (l : Lexeme) :
    depthAfter depth (l.relocate f) = depthAfter depth l := rfl

@[simp]
theorem introducesName_relocate (l : Lexeme) :
    (l.relocate f).introducesName = l.introducesName := rfl

@[simp]
theorem parameterText_relocate (ls : List Lexeme) :
    parameterText (ls.map (relocate f)) = parameterText ls := by
  simp [parameterText, Function.comp_def]

@[simp]
theorem expressionText_relocate (ls : List Lexeme) :
    expressionText (ls.map (relocate f)) = expressionText ls := by
  simp [expressionText, Function.comp_def]

@[simp]
theorem clauseTokens_relocate (depth : Nat) (nameFollows : Bool) (ls : List Lexeme) :
    clauseTokens depth nameFollows (ls.map (relocate f)) = clauseTokens depth nameFollows ls := by
  induction ls generalizing depth nameFollows with
  | nil => rfl
  | cons l ls ih => exact congrArg (List.cons _) (ih _ _)

@[simp]
theorem remainder_relocate (ls : List Lexeme) : remainder (ls.map (relocate f)) = remainder ls :=
  clauseTokens_relocate f 0 false ls

@[simp]
theorem namedRemainder_relocate (ls : List Lexeme) :
    namedRemainder (ls.map (relocate f)) = namedRemainder ls := by
  cases ls with
  | nil => rfl
  | cons l ls => simp [namedRemainder, remainder, clauseTokens]

theorem withoutLengths_relocate (depth : Nat) (ls : List Lexeme) :
    withoutLengths depth (ls.map (relocate f)) = (withoutLengths depth ls).map (relocate f) := by
  induction ls generalizing depth with
  | nil => rfl
  | cons l ls ih =>
      cases opening : l.token.isPunct '(' with
      | true => by_cases outside : depth = 0 <;> simp [withoutLengths, opening, outside, ih]
      | false =>
          cases closing : l.token.isPunct ')' with
          | true =>
              by_cases shallow : depth ≤ 1 <;>
                simp [withoutLengths, opening, closing, shallow, ih]
          | false =>
              by_cases shallow : depth ≤ 1 <;>
                simp [withoutLengths, opening, closing, shallow, ih]

@[simp]
theorem keyRemainder_relocate (ls : List Lexeme) :
    keyRemainder (ls.map (relocate f)) = keyRemainder ls := by
  simp [keyRemainder, withoutLengths_relocate]

theorem splitCommas_relocate (depth : Nat) (ls : List Lexeme) :
    splitCommas depth (ls.map (relocate f)) =
      (splitCommas depth ls).map (List.map (relocate f)) := by
  induction ls generalizing depth with
  | nil => rfl
  | cons l ls ih =>
      cases ends : l.token.isPunct ',' && depth == 0 with
      | true => simp [splitCommas, ends, ih]
      | false =>
          simp only [List.map_cons, splitCommas, relocate_token, depthAfter_relocate, ends,
            Bool.false_eq_true, if_false, ih]
          cases splitCommas (depthAfter depth l) ls with
          | nil => rfl
          | cons part parts => rfl

theorem commaParts_relocate (ls : List Lexeme) :
    commaParts (ls.map (relocate f)) = (commaParts ls).map (List.map (relocate f)) := by
  simp [commaParts, splitCommas_relocate, List.filter_map, Function.comp_def]

theorem ne_nil_of_mem_commaParts {ls part : List Lexeme} (h : part ∈ commaParts ls) :
    part ≠ [] := by
  simpa using (List.mem_filter.mp h).2

end Lexeme

/-! ## Cursors -/

namespace Cursor

variable (f : Nat → Nat) (c : Cursor)

/-- What was read, with the cursor behind it at moved positions. -/
def moveRest {α : Type} (read : α × Cursor) : α × Cursor :=
  (read.1, read.2.relocate f)

/-- What was read, with the lexemes behind it at moved positions. -/
def moveLexemes {α : Type} (read : α × List Lexeme) : α × List Lexeme :=
  (read.1, read.2.map (Lexeme.relocate f))

@[simp]
theorem rest_relocate : (c.relocate f).rest = c.rest.map (Lexeme.relocate f) := rfl

@[simp]
theorem stop_relocate : (c.relocate f).stop = f c.stop := rfl

theorem ofSlice_relocate {slice : List Lexeme} (h : slice ≠ []) :
    ofSlice (slice.map (Lexeme.relocate f)) = (ofSlice slice).relocate f := by
  have last := List.getLast?_eq_some_getLast h
  simp [ofSlice, relocate, last]

theorem position_relocate : (c.relocate f).position = f c.position := by
  obtain ⟨rest, stop⟩ := c
  cases rest <;> rfl

theorem complain_relocate {α : Type} (complaint : Complaint) (move : α → α) :
    (c.relocate f).complain complaint = relocateResult f move (c.complain complaint) := by
  simp only [complain, position_relocate, relocateResult_error, SyntaxError.relocate]

@[simp]
theorem next_relocate : (c.relocate f).next = c.next.relocate f := by
  simp [next, relocate]

@[simp]
theorem keyword?_relocate : (c.relocate f).keyword? = c.keyword? := by
  obtain ⟨rest, stop⟩ := c
  cases rest <;> rfl

@[simp]
theorem atKeyword_relocate (word : String) : (c.relocate f).atKeyword word = c.atKeyword word := by
  obtain ⟨rest, stop⟩ := c
  cases rest <;> rfl

@[simp]
theorem atAnyKeyword_relocate (words : List String) :
    (c.relocate f).atAnyKeyword words = c.atAnyKeyword words :=
  congrArg words.any (funext (atKeyword_relocate f c))

@[simp]
theorem atPunct_relocate (mark : Char) : (c.relocate f).atPunct mark = c.atPunct mark := by
  obtain ⟨rest, stop⟩ := c
  cases rest <;> rfl

@[simp]
theorem skipKeyword_relocate (word : String) :
    (c.relocate f).skipKeyword word = (c.skipKeyword word).relocate f := by
  cases found : c.atKeyword word <;> simp [skipKeyword, found]

theorem expectKeyword_relocate (word : String) :
    (c.relocate f).expectKeyword word = relocateResult f (relocate f) (c.expectKeyword word) := by
  cases found : c.atKeyword word with
  | true => simp [expectKeyword, found]
  | false =>
      simp only [expectKeyword, atKeyword_relocate, found, Bool.false_eq_true, if_false]
      exact complain_relocate f c _ _

theorem nameFrom_relocate (stop : Nat) (ls : List Lexeme) :
    nameFrom (f stop) (ls.map (Lexeme.relocate f)) =
      relocateResult f (moveLexemes f) (nameFrom stop ls) := by
  fun_induction nameFrom stop ls with
  | case1 => rfl
  | case2 l name found => simp [nameFrom, found, moveLexemes]
  | case3 l unnamed => simp [nameFrom, unnamed, SyntaxError.relocate]
  | case4 l dot ls name found dotted ih => simp [nameFrom, found, dotted, ih]
  | case5 l dot ls name found dotless => simp [nameFrom, found, dotless, moveLexemes]
  | case6 l dot ls unnamed => simp [nameFrom, unnamed, SyntaxError.relocate]

theorem name_relocate : (c.relocate f).name = relocateResult f (moveRest f) c.name := by
  simp only [name, rest_relocate, stop_relocate, nameFrom_relocate]
  cases nameFrom c.stop c.rest with
  | error e => rfl
  | ok read => rfl

theorem splitClose_relocate (depth : Nat) (ls : List Lexeme) :
    splitClose depth (ls.map (Lexeme.relocate f)) =
      (splitClose depth ls).map
        (Prod.map (List.map (Lexeme.relocate f)) (List.map (Lexeme.relocate f))) := by
  have keeps (l : Lexeme) (split : Option (List Lexeme × List Lexeme)) :
      (split.map (Prod.map (List.map (Lexeme.relocate f)) (List.map (Lexeme.relocate f)))).map
          (keepInside (l.relocate f)) =
        (split.map (keepInside l)).map
          (Prod.map (List.map (Lexeme.relocate f)) (List.map (Lexeme.relocate f))) := by
    cases split <;> rfl
  fun_induction splitClose depth ls with
  | case1 => rfl
  | case2 depth l ls opening ih => simp only [List.map_cons, splitClose, Lexeme.relocate_token,
      opening, if_true, ih, keeps]
  | case3 l ls _ closing => simp_all [splitClose]
  | case4 l ls _ closing depth ih => simp_all [splitClose]
  | case5 depth l ls _ _ ih => simp_all [splitClose]

/-- A group at moved positions: its lexemes are moved, and so is what follows. -/
theorem group_relocate :
    (c.relocate f).group = relocateResult f
      (fun read => (read.1.map (Lexeme.relocate f), read.2.relocate f)) c.group := by
  cases opening : c.atPunct '(' with
  | false =>
      simp only [group, atPunct_relocate, opening, Bool.false_eq_true, if_false]
      exact complain_relocate f c _ _
  | true =>
      simp only [group, atPunct_relocate, opening, if_true, rest_relocate, ← List.map_tail,
        splitClose_relocate]
      cases splitClose 0 c.rest.tail with
      | none => rfl
      | some split => rfl

theorem readParts_relocate {α β : Type} {read : Cursor → Except SyntaxError α}
    (all : List (List Lexeme) → Except SyntaxError (List β)) (join : α → List β → List β)
    (nil : all [] = .ok [])
    (cons : ∀ part parts, all (part :: parts) =
      read (ofSlice part) >>= fun a => all parts >>= fun bs => .ok (join a bs))
    (moved : ∀ c, read (c.relocate f) = relocateResult f id (read c))
    {parts : List (List Lexeme)} (h : ∀ part ∈ parts, part ≠ []) :
    all (parts.map (List.map (Lexeme.relocate f))) = relocateResult f id (all parts) := by
  induction parts with
  | nil => rw [List.map_nil, nil, relocateResult_ok, id_eq]
  | cons part parts ih =>
      rw [List.forall_mem_cons] at h
      rw [List.map_cons, cons, cons, ofSlice_relocate f h.1, moved]
      apply bind_relocateResult
      intro a
      rw [ih h.2]
      apply bind_relocateResult
      intro bs
      rfl

/-! ### Keys -/

theorem indexColumn_relocate : (c.relocate f).indexColumn = relocateResult f id c.indexColumn := by
  rw [indexColumn, indexColumn, name_relocate]
  apply bind_relocateResult
  rintro ⟨name, c⟩
  simp only [moveRest, atPunct_relocate]
  split
  · rw [group_relocate]
    apply bind_relocateResult
    rintro ⟨inside, after⟩
    cases inside <;> rfl
  · rfl

theorem indexColumns_relocate {parts : List (List Lexeme)} (h : ∀ part ∈ parts, part ≠ []) :
    indexColumns (parts.map (List.map (Lexeme.relocate f))) =
      relocateResult f id (indexColumns parts) := by
  exact readParts_relocate f indexColumns List.cons rfl (fun _ _ => rfl) (indexColumn_relocate f) h

theorem referenceOptionsFrom_relocate (stop : Nat) (ls : List Lexeme) :
    referenceOptionsFrom (f stop) (ls.map (Lexeme.relocate f)) =
      relocateResult f (moveLexemes f) (referenceOptionsFrom stop ls) := by
  fun_induction referenceOptionsFrom stop ls with
  | case1 => rfl
  | case2 l ls noEvent => simp [referenceOptionsFrom, noEvent, moveLexemes]
  | case3 l event found => simp [referenceOptionsFrom, found, SyntaxError.relocate]
  | case4 l event found word ls noAction =>
      simp [referenceOptionsFrom, found, noAction, SyntaxError.relocate]
  | case5 l event found word ls action acted ih =>
      simp only [List.map_cons, referenceOptionsFrom, Lexeme.relocate_token, found, acted, ih]
      apply bind_relocateResult
      rintro ⟨options, rest⟩
      rfl

theorem references_relocate :
    (c.relocate f).references = relocateResult f (moveRest f) c.references := by
  rw [references, references, expectKeyword_relocate]
  apply bind_relocateResult
  intro c
  rw [name_relocate]
  apply bind_relocateResult
  rintro ⟨table, c⟩
  simp only [moveRest, atPunct_relocate]
  split
  · rw [group_relocate]
    apply bind_relocateResult
    rintro ⟨inside, c⟩
    simp only [Lexeme.commaParts_relocate]
    rw [indexColumns_relocate f fun _ member => Lexeme.ne_nil_of_mem_commaParts member]
    apply bind_relocateResult
    intro columns
    simp only [pure_bind, stop_relocate, rest_relocate, referenceOptionsFrom_relocate]
    apply bind_relocateResult
    rintro ⟨options, rest⟩
    rfl
  · simp only [pure_bind, stop_relocate, rest_relocate, referenceOptionsFrom_relocate]
    apply bind_relocateResult
    rintro ⟨options, rest⟩
    rfl

theorem keyName_relocate : (c.relocate f).keyName = relocateResult f (moveRest f) c.keyName := by
  rw [keyName, keyName, atPunct_relocate]
  split
  · rfl
  · rw [name_relocate]
    apply bind_relocateResult
    rintro ⟨name, c⟩
    rfl

theorem keyClause_relocate : (c.relocate f).keyClause = relocateResult f id c.keyClause := by
  rw [keyClause, keyClause, keyword?_relocate]
  split
  · exact complain_relocate f c _ _
  · split
    · rfl
    · rw [next_relocate, keyName_relocate]
      apply bind_relocateResult
      rintro ⟨name, c⟩
      simp only [moveRest]
      rw [group_relocate]
      apply bind_relocateResult
      rintro ⟨inside, c⟩
      simp only [Lexeme.commaParts_relocate]
      rw [indexColumns_relocate f fun _ member => Lexeme.ne_nil_of_mem_commaParts member]
      apply bind_relocateResult
      intro columns
      simp only [id_eq]
      split
      · exact complain_relocate f c _ _
      · split
        · rw [references_relocate]
          apply bind_relocateResult
          rintro ⟨target, _⟩
          rfl
        · rfl

/-! ### Columns -/

theorem optionValue_relocate :
    (c.relocate f).optionValue = relocateResult f (moveRest f) c.optionValue := by
  obtain ⟨rest, stop⟩ := c
  cases rest with
  | nil => rfl
  | cons l ls =>
      simp only [optionValue, rest_relocate, List.map_cons, Lexeme.relocate_token]
      cases l.token with
      | literal value => rfl
      | punct mark =>
          simp only
          split
          · rw [group_relocate]
            cases group ⟨l :: ls, stop⟩ with
            | error e => rfl
            | ok read => simp [moveRest]
          · exact complain_relocate f _ _ _
      | keyword word | identifier name =>
          simp only [next_relocate, atPunct_relocate]
          split
          · rfl
          · split
            · rw [group_relocate]
              cases (next ⟨l :: ls, stop⟩).group with
              | error e => rfl
              | ok read => simp [moveRest]
            · rfl

theorem columnTail_relocate (column : String) :
    (c.relocate f).columnTail column = relocateResult f id (c.columnTail column) := by
  -- Along the lexemes left; a value or a group can take any number of them.
  induction count : c.rest.length using Nat.strongRecOn generalizing c with
  | ind size ih =>
      cases hrest : c.rest with
      | nil =>
          rw [columnTail_nil column hrest, columnTail_nil column (by simp [hrest])]
          rfl
      | cons l ls =>
          have moved : (c.relocate f).rest = l.relocate f :: ls.map (Lexeme.relocate f) := by
            simp [hrest]
          have shorter : c.next.rest.length < size := count ▸ length_next_lt hrest
          have further := ih _ shorter c.next rfl
          rw [columnTail_cons column hrest, columnTail_cons column moved]
          simp only [Lexeme.relocate_token, next_relocate, atPunct_relocate]
          cases l.token.keyword? with
          | none => exact further
          | some word =>
              dsimp only
              cases OptionRole.ofKeyword word with
              | reference => rfl
              | typeFlag | key kind | flag =>
                  dsimp only
                  rw [further]
                  exact map_relocateResult f fun _ => rfl
              | typeValue | value =>
                  dsimp only
                  rw [optionValue_relocate]
                  apply bind_relocateResult_of_ok
                  intro value read
                  have left := Nat.lt_trans (length_lt_of_optionValue read) shorter
                  simp only [moveRest, ih _ left value.2 rfl]
                  exact map_relocateResult f fun _ => rfl
              | check =>
                  dsimp only
                  split
                  · rw [group_relocate]
                    apply bind_relocateResult_of_ok
                    intro inside read
                    have left := Nat.lt_trans (length_lt_of_group read) shorter
                    exact ih _ left inside.2 rfl
                  · exact further

theorem typeName?_relocate : (c.relocate f).typeName? = c.typeName? := by
  obtain ⟨rest, stop⟩ := c
  cases rest <;> rfl

theorem typeParameters_relocate :
    (c.relocate f).typeParameters = relocateResult f (moveRest f) c.typeParameters := by
  rw [typeParameters, typeParameters, atPunct_relocate]
  split
  · rw [group_relocate]
    cases c.group with
    | error e => rfl
    | ok read => simp [moveRest, Lexeme.commaParts_relocate, Function.comp_def]
  · rfl

theorem column_relocate : (c.relocate f).column = relocateResult f id c.column := by
  rw [column, column, name_relocate]
  apply bind_relocateResult
  rintro ⟨name, c⟩
  simp only [moveRest, typeName?_relocate]
  split
  · exact complain_relocate f c _ _
  · rw [next_relocate, typeParameters_relocate]
    apply bind_relocateResult
    rintro ⟨parameters, c⟩
    simp only [moveRest]
    rw [columnTail_relocate]
    apply bind_relocateResult
    intro tail
    rfl

theorem definition_relocate : (c.relocate f).definition = relocateResult f id c.definition := by
  have keyed (name : Option String) (c : Cursor) :
      ((c.relocate f).keyClause >>= fun key =>
          (pure (key.map fun key => { name, key := some key }) : Except SyntaxError _)) =
        relocateResult f id (c.keyClause >>= fun key =>
          pure (key.map fun key => ({ name, key := some key } : Field))) := by
    rw [keyClause_relocate]
    apply bind_relocateResult
    intro key
    rfl
  rw [definition, definition, atAnyKeyword_relocate]
  split
  · rw [atKeyword_relocate, next_relocate, atAnyKeyword_relocate]
    split
    · split
      · exact keyed none c.next
      · rw [name_relocate]
        simp only
        apply bind_relocateResult
        rintro ⟨name, c⟩
        exact keyed (some name) c
    · exact keyed none c
  · rw [column_relocate]
    apply bind_relocateResult
    intro field
    rfl

/-! ### Clauses -/

theorem columnClause_relocate (options : List String) :
    (c.relocate f).columnClause options = relocateResult f id (c.columnClause options) := by
  rw [columnClause, columnClause, name_relocate]
  apply bind_relocateResult
  rintro ⟨name, after⟩
  simp [moveRest, pure, Except.pure]

theorem addClause_relocate : (c.relocate f).addClause = relocateResult f id c.addClause := by
  rw [addClause, addClause, keyword?_relocate]
  split
  · rw [next_relocate, columnClause_relocate]
  · split
    · simp only [next_relocate, atPunct_relocate, atAnyKeyword_relocate]
      split
      · simp
      · rw [name_relocate]
        apply bind_relocateResult
        rintro ⟨name, after⟩
        simp [moveRest, pure, Except.pure]
    · split
      · simp
      · exact columnClause_relocate f c _
  · rw [atPunct_relocate]
    split
    · simp
    · exact columnClause_relocate f c _

theorem changeClause_relocate (verb : String) {tokens : List Lexeme → List Token}
    (h : ∀ ls, tokens (ls.map (Lexeme.relocate f)) = tokens ls) :
    (c.relocate f).changeClause verb tokens = relocateResult f id (c.changeClause verb tokens) := by
  simp only [changeClause, atKeyword_relocate, skipKeyword_relocate, name_relocate]
  apply bind_relocateResult
  rintro ⟨name, after⟩
  simp [moveRest, pure, Except.pure, h]

theorem dropClause_relocate : (c.relocate f).dropClause = relocateResult f id c.dropClause := by
  have named (options : List String) (c : Cursor) :
      ((c.relocate f).name >>= fun read =>
          (pure ⟨options, some read.1, []⟩ : Except SyntaxError AlterOperation)) =
        relocateResult f id (c.name >>= fun read => pure ⟨options, some read.1, []⟩) := by
    rw [name_relocate]
    apply bind_relocateResult
    intro read
    rfl
  rw [dropClause, dropClause, keyword?_relocate]
  split
  · split
    · rw [next_relocate]
      exact named _ c.next
    · split
      · simp
      · exact named _ c
  · exact named _ c

theorem renameClause_relocate :
    (c.relocate f).renameClause = relocateResult f id c.renameClause := by
  rw [renameClause, renameClause, keyword?_relocate]
  split
  · simp
  · simp
  · split
    · rw [next_relocate, name_relocate]
      apply bind_relocateResult
      rintro ⟨name, after⟩
      simp [moveRest, pure, Except.pure]
    · simp
  · simp

theorem alterClause_relocate : (c.relocate f).alterClause = relocateResult f id c.alterClause := by
  obtain ⟨rest, stop⟩ := c
  cases rest with
  | nil => rfl
  | cons head rest =>
      simp only [alterClause, rest_relocate, List.map_cons, Lexeme.relocate_token, next_relocate]
      split
      · simp
      · exact addClause_relocate f _
      · exact changeClause_relocate f _ _ (Lexeme.namedRemainder_relocate f)
      · exact changeClause_relocate f _ _ (Lexeme.remainder_relocate f)
      · exact dropClause_relocate f _
      · exact renameClause_relocate f _
      · simp

/-! ### Statements -/

theorem definitions_relocate {parts : List (List Lexeme)} (h : ∀ part ∈ parts, part ≠ []) :
    definitions (parts.map (List.map (Lexeme.relocate f))) =
      relocateResult f id (definitions parts) := by
  exact readParts_relocate f definitions (fun field fields => field.toList ++ fields) rfl
    (fun _ _ => rfl) (definition_relocate f) h

theorem createTable_relocate :
    (c.relocate f).createTable = relocateResult f id c.createTable := by
  rw [createTable, createTable, skipKeyword_relocate, name_relocate]
  apply bind_relocateResult
  rintro ⟨table, c⟩
  simp only [moveRest]
  rw [group_relocate]
  apply bind_relocateResult
  rintro ⟨body, c⟩
  simp only [Lexeme.commaParts_relocate]
  rw [definitions_relocate f fun _ member => Lexeme.ne_nil_of_mem_commaParts member]
  apply bind_relocateResult
  intro fields
  simp only [id_eq]
  split
  · exact complain_relocate f c _ _
  · rfl

theorem alterClauses_relocate {parts : List (List Lexeme)} (h : ∀ part ∈ parts, part ≠ []) :
    alterClauses (parts.map (List.map (Lexeme.relocate f))) =
      relocateResult f id (alterClauses parts) := by
  exact readParts_relocate f alterClauses List.cons rfl (fun _ _ => rfl) (alterClause_relocate f) h

theorem alterTable_relocate : (c.relocate f).alterTable = relocateResult f id c.alterTable := by
  rw [alterTable, alterTable, name_relocate]
  apply bind_relocateResult
  rintro ⟨table, c⟩
  simp only [moveRest, rest_relocate, Lexeme.commaParts_relocate]
  rw [alterClauses_relocate f fun _ member => Lexeme.ne_nil_of_mem_commaParts member]
  apply bind_relocateResult
  intro operations
  simp only [id_eq]
  split
  · exact complain_relocate f c _ _
  · rfl

theorem tableNames_relocate : (c.relocate f).tableNames = relocateResult f id c.tableNames := by
  induction count : c.rest.length using Nat.strongRecOn generalizing c with
  | ind size ih =>
      rw [tableNames_eq, tableNames_eq, name_relocate]
      apply bind_relocateResult_of_ok
      rintro ⟨name, after⟩ read
      simp only [moveRest, atPunct_relocate, next_relocate]
      split
      · have left := length_next_lt_of_name read
        rw [ih _ (count ▸ left) after.next rfl]
        exact map_relocateResult f fun _ => rfl
      · rfl

theorem dropTable_relocate : (c.relocate f).dropTable = relocateResult f id c.dropTable := by
  rw [dropTable, dropTable, skipKeyword_relocate, tableNames_relocate]
  apply bind_relocateResult
  intro tables
  rfl

theorem statement_relocate : (c.relocate f).statement = relocateResult f id c.statement := by
  simp only [statement, atKeyword_relocate, next_relocate, skipKeyword_relocate]
  split
  · split
    · rw [createTable_relocate]
      exact map_relocateResult f fun _ => rfl
    · rfl
  · split
    · split
      · rw [alterTable_relocate]
        exact map_relocateResult f fun _ => rfl
      · rfl
    · split
      · split
        · rw [dropTable_relocate]
          exact map_relocateResult f fun _ => rfl
        · rfl
      · rfl

end Cursor

/-! ## Scripts -/

namespace Lexeme

variable (f : Nat → Nat)

theorem startWith_relocate (words : List String) (ls : List Lexeme) :
    startWith words (ls.map (relocate f)) = startWith words ls := by
  induction words generalizing ls with
  | nil => rfl
  | cons word words ih =>
      cases ls with
      | nil => rfl
      | cons l ls => simp [startWith, ih]

@[simp]
theorem compound?_relocate (ls : List Lexeme) : compound? (ls.map (relocate f)) = compound? ls := by
  simp only [compound?, startWith_relocate]

theorem ofCompound_relocate (words : List String) {parts : List Lexeme} (h : parts ≠ []) :
    ofCompound words (parts.map (relocate f)) = (ofCompound words parts).relocate f := by
  have first := List.head?_eq_some_head h
  have last := List.getLast?_eq_some_getLast h
  simp [ofCompound, relocate, Function.comp_def, first, last]

theorem mergeCompounds_relocate (ls : List Lexeme) :
    mergeCompounds (ls.map (relocate f)) = (mergeCompounds ls).map (relocate f) := by
  fun_induction mergeCompounds ls with
  | case1 => simp [mergeCompounds]
  | case2 l ls words found ih =>
      have some_part : (l :: ls).take words.length ≠ [] := by
        have worded := length_pos_of_compound? found
        cases words with
        | nil => contradiction
        | cons word words => simp
      rw [List.map_cons, mergeCompounds, ← List.map_cons, compound?_relocate, found]
      simp only
      rw [← List.map_take, ofCompound_relocate f words some_part, ← List.map_drop, ih,
        List.map_cons]
  | case3 l ls absent ih =>
      rw [List.map_cons, mergeCompounds, ← List.map_cons, compound?_relocate, absent]
      simp only [ih, List.map_cons]

end Lexeme

namespace Script

variable (f : Nat → Nat)

theorem chunks_relocate (ls : List Lexeme) :
    chunks (ls.map (Lexeme.relocate f)) = (chunks ls).map (List.map (Lexeme.relocate f)) := by
  induction ls with
  | nil => rfl
  | cons l ls ih =>
      cases ends : l.token.isPunct ';' with
      | true => simp [chunks, ends, ih]
      | false =>
          simp only [List.map_cons, chunks, Lexeme.relocate_token, ends, Bool.false_eq_true,
            if_false, ih]
          cases chunks ls with
          | nil => rfl
          | cons chunk rest => rfl

theorem statement_relocate (chunk : List Lexeme) :
    (Cursor.ofSlice (chunk.map (Lexeme.relocate f))).statement =
      relocateResult f id (Cursor.ofSlice chunk).statement := by
  cases chunk with
  | nil => rfl
  | cons l ls =>
      rw [Cursor.ofSlice_relocate f (List.cons_ne_nil l ls), Cursor.statement_relocate]

theorem statements_relocate (chunks : List (List Lexeme)) :
    statements (chunks.map (List.map (Lexeme.relocate f))) =
      relocateResult f id (statements chunks) := by
  induction chunks with
  | nil => rfl
  | cons chunk chunks ih =>
      rw [List.map_cons, statements, statements, statement_relocate]
      apply bind_relocateResult
      intro statement
      rw [ih]
      apply bind_relocateResult
      intro found
      rfl

end Script

end TableShift
