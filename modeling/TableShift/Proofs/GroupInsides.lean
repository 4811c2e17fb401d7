import TableShift.Migration.Batch
import TableShift.Proofs.OptionSteps
import TableShift.Proofs.Relocation
import TableShift.Sql.Script

/-! # Options inside groups

The parameters of a type, a value, the arguments of a call and a condition are groups that
the reader of a column takes as a whole: what stands in them names no option. Every other
group is walked through lexeme by lexeme, and keywords inside it are read as options of the
column. So the lexemes outside of groups determine the options exactly if no group is walked
through.
-/

namespace TableShift

open Lexeme

/-! ## What is left outside -/

namespace Lexeme

/-- The lexeme without its place in the script. -/
def unplaced (l : Lexeme) : Lexeme :=
  l.relocate fun _ => 0

/-- What is left of lexemes if the contents of every outermost group are erased, where `depth`
    groups are open before them. -/
def outside (depth : Nat) : List Lexeme → List Lexeme
  | [] => []
  | l :: ls =>
    if depth = 0 ∨ depthAfter depth l = 0 then l.unplaced :: outside (depthAfter depth l) ls
    else outside (depthAfter depth l) ls

theorem outside_zero_cons (l : Lexeme) (ls : List Lexeme) :
    outside 0 (l :: ls) = l.unplaced :: outside (depthAfter 0 l) ls :=
  if_pos (.inl rfl)

theorem outside_append (depth : Nat) (xs ys : List Lexeme) :
    outside depth (xs ++ ys) = outside depth xs ++ outside (xs.foldl depthAfter depth) ys := by
  induction xs generalizing depth with
  | nil => rfl
  | cons x xs ih =>
      rw [List.cons_append, outside, outside, ih, List.foldl_cons]
      split <;> rfl

theorem outside_balanced_append {xs : List Lexeme} (h : Balanced xs) (ys : List Lexeme) :
    outside 0 (xs ++ ys) = outside 0 xs ++ outside 0 ys := by
  rw [outside_append, foldl_depthAfter_balanced h]

theorem outside_inside {ls : List Lexeme} (h : Balanced ls) (depth : Nat) :
    outside (depth + 1) ls = [] := by
  induction h generalizing depth with
  | nil => rfl
  | flat l _ ih => simp [outside, depthAfter_flat l, ih]
  | group opens inner closes _ inner_ih ih =>
      simp [outside, depthAfter_open opens, outside_append, inner_ih,
        foldl_depthAfter_balanced inner, depthAfter_close closes, ih]

theorem outside_flat {ls : List Lexeme} (flat : ∀ l ∈ ls, l.Flat) :
    outside 0 ls = ls.map unplaced := by
  induction ls with
  | nil => rfl
  | cons l ls ih =>
      rw [List.forall_mem_cons] at flat
      rw [outside_zero_cons, depthAfter_flat flat.1, ih flat.2, List.map_cons]

theorem outside_single (l : Lexeme) : outside 0 [l] = [l.unplaced] :=
  outside_zero_cons l []

theorem opensGroup_outside (ls : List Lexeme) : opensGroup (outside 0 ls) = opensGroup ls := by
  cases ls with
  | nil => rfl
  | cons l ls => rw [outside_zero_cons]; rfl

theorem opensGroup_congr {xs ys : List Lexeme} (same : outside 0 xs = outside 0 ys) :
    opensGroup xs = opensGroup ys := by
  rw [← opensGroup_outside xs, same, opensGroup_outside]

theorem IsGroup.outside {ls : List Lexeme} (h : IsGroup ls) : IsGroup (outside 0 ls) := by
  cases h with
  | @intro opening closing inside opens inner closes =>
      have left : Lexeme.outside 0 (opening :: (inside ++ [closing])) =
          opening.unplaced :: ([] ++ [closing.unplaced]) := by
        simp [Lexeme.outside, depthAfter_open opens, outside_append, outside_inside inner,
          foldl_depthAfter_balanced inner, depthAfter_close closes]
      rw [left]
      exact .intro opens .nil closes

theorem IsValue.outside {opened : Bool} {ls : List Lexeme} (h : IsValue opened ls) :
    IsValue opened (outside 0 ls) := by
  cases h with
  | group h => exact .group h.outside
  | constant constant =>
      rw [outside_single]
      exact .constant constant
  | word word unopened =>
      rw [outside_single]
      exact .word word unopened
  | call word h =>
      rw [outside_zero_cons, depthAfter_flat (flat_of_isWord word)]
      exact .call word h.outside

/-- An option takes what is left of the lexemes that it took. -/
theorem IsOption.outside {opened : Bool} {l : Lexeme} {ls : List Lexeme}
    (h : IsOption opened l ls) : IsOption opened l.unplaced (outside 0 ls) := by
  cases h with
  | bare role => exact .bare role
  | valued role h => exact .valued role h.outside
  | check role h => exact .check role h.outside
  | unchecked role unopened => exact .unchecked role unopened

theorem depthAfter_of_unopened {l : Lexeme} (h : l.token ≠ .punct '(') : depthAfter 0 l = 0 := by
  have closed : l.token.isPunct '(' = false :=
    Bool.eq_false_iff.mpr fun opens => h (Token.isPunct_iff.mp opens)
  simp [depthAfter, closed]

theorem IsOption.outside_append {opened : Bool} {l : Lexeme} {ls : List Lexeme}
    (h : IsOption opened l ls) (unopened : l.token ≠ .punct '(') (rest : List Lexeme) :
    Lexeme.outside 0 (l :: (ls ++ rest)) =
      l.unplaced :: (Lexeme.outside 0 ls ++ Lexeme.outside 0 rest) := by
  rw [outside_zero_cons, depthAfter_of_unopened unopened, outside_balanced_append h.balanced]

/-- Whether no keyword stands where a group is open, `depth` groups being open before. -/
def quietFrom (depth : Nat) : List Lexeme → Bool
  | [] => true
  | l :: ls => (depth == 0 || l.token.keyword?.isNone) && quietFrom (depthAfter depth l) ls

theorem flat_of_keyword? {l : Lexeme} {word : String} (h : l.token.keyword? = some word) :
    l.Flat :=
  flat_of_keyword (Token.keyword?_eq_some_iff.mp h)

theorem exists_keyword?_of_role? {l : Lexeme} {role : OptionRole} (h : l.role? = some role) :
    ∃ word, l.token.keyword? = some word := by
  obtain ⟨word, spelled, _⟩ := Option.map_eq_some_iff.mp h
  exact ⟨word, spelled⟩

theorem IsOption.eq_nil {opened : Bool} {l : Lexeme} {ls : List Lexeme}
    (h : IsOption opened l ls) (plain : l.token.keyword? = none) : ls = [] := by
  have role : l.role? = none := by simp [role?, plain]
  cases h with
  | bare | unchecked => rfl
  | valued valued => simp [role] at valued
  | check check => simp [role] at check

/-- `NOT NULL`, as it can stand anywhere. -/
def notNull : Lexeme where
  token := .keyword "NOT NULL"
  raw := "NOT NULL"
  start := 0
  stop := 0

theorem flat_notNull : notNull.Flat :=
  flat_of_keyword rfl

theorem notNull_isBare {opened : Bool} : IsOption opened notNull [] :=
  .bare rfl

theorem exists_length_addTo (column : String) (l : Lexeme) :
    ∃ added, ∀ names : OptionNames,
      (l.addTo column names).ofColumn.length = names.ofColumn.length + added := by
  unfold addTo
  cases l.token.keyword? with
  | none => exact ⟨0, fun _ => rfl⟩
  | some word =>
      dsimp only
      cases OptionRole.ofKeyword word with
      | value | flag => exact ⟨1, fun _ => rfl⟩
      | typeFlag | typeValue | key | check | reference => exact ⟨0, fun _ => rfl⟩

end Lexeme

namespace OptionRun

variable {column : String} {ls heads : List Lexeme} {names : OptionNames}

/-- Where no keyword inside a group is read as an option, the options are those outside. -/
theorem exists_outside (run : OptionRun column ls heads names) {depth : Nat}
    (quiet : quietFrom depth heads = true) :
    ∃ heads', OptionRun column (outside depth ls) heads' names := by
  induction run generalizing depth with
  | done => exact ⟨[], .done⟩
  | @ended l role rest =>
      obtain ⟨word, spelled⟩ := exists_keyword?_of_role? role
      obtain rfl : depth = 0 := by simpa [quietFrom, spelled] using quiet
      have ends : l.unplaced.role? = some .reference := role
      rw [outside_zero_cons]
      exact ⟨[l.unplaced], .ended ends _⟩
  | @step l ls rest heads names option _ ih =>
      simp only [quietFrom, Bool.and_eq_true] at quiet
      obtain ⟨heads', run⟩ := ih quiet.2
      cases spelled : l.token.keyword? with
      | none =>
          obtain rfl := option.eq_nil spelled
          have unnamed : l.addTo column names = names := by simp [addTo, spelled]
          rw [unnamed, List.nil_append, outside]
          split
          · have kept : IsOption (opensGroup (outside (depthAfter depth l) rest))
                l.unplaced [] := .bare (by simp [role?, unplaced, spelled])
            have step := OptionRun.step kept run
            have still : l.unplaced.addTo column names = names := unnamed
            rw [still] at step
            exact ⟨_, step⟩
          · exact ⟨heads', run⟩
      | some word =>
          obtain rfl : depth = 0 := by simpa [spelled] using quiet.1
          have flat := flat_of_keyword? spelled
          have unopened : l.token ≠ .punct '(' := by
            rw [Token.keyword?_eq_some_iff.mp spelled]
            simp
          rw [depthAfter_flat flat] at run
          rw [option.outside_append unopened]
          have taken := option.outside
          rw [← opensGroup_outside rest] at taken
          exact ⟨_, .step taken run⟩

theorem exists_opening_outside_iff (run : OptionRun column ls heads names) (stop : Nat) :
    (∃ l ∈ Cursor.optionHeads ⟨outside 0 ls, stop⟩, l.token = .punct '(') ↔
      ∃ l ∈ heads, l.token = .punct '(' := by
  induction run with
  | done => simp [outside, Cursor.optionHeads_nil]
  | @ended l role rest =>
      have stuck : Cursor.afterOption? ⟨outside 0 (l :: rest), stop⟩ = none := by
        rw [outside_zero_cons]
        have role : l.unplaced.role? = some .reference := role
        simp [Cursor.afterOption?, Cursor.behindWord?, role, OptionRole.isBare, OptionRole.isValued]
      rw [Cursor.optionHeads_cons (outside_zero_cons l rest), stuck]
      simp [unplaced]
  | @step l ls rest heads names option _ ih =>
      by_cases opens : l.token = .punct '('
      · rw [Cursor.optionHeads_cons (outside_zero_cons l _)]
        constructor
        · exact fun _ => ⟨l, List.mem_cons_self, opens⟩
        · exact fun _ => ⟨l.unplaced, List.mem_cons_self, opens⟩
      · have taken := option.outside
        rw [← opensGroup_outside rest] at taken
        have split := option.outside_append opens rest
        have passed := Cursor.afterOption?_of_isOption taken stop
        rw [← split] at passed
        rw [Cursor.optionHeads_cons split, passed]
        have closed : l.unplaced.token ≠ .punct '(' := opens
        simpa [opens, closed] using ih

/-- A keyword behind a parenthesis that an option starts with adds an option, and outside it is
    not seen. -/
theorem exists_intruded (run : OptionRun column ls heads names)
    (walked : ∃ l ∈ heads, l.token = .punct '(') :
    ∃ ls' heads' names', outside 0 ls' = outside 0 ls ∧ OptionRun column ls' heads' names' ∧
      names'.ofColumn.length = names.ofColumn.length + 1 := by
  induction run with
  | done => simp at walked
  | ended role rest =>
      obtain ⟨word, spelled⟩ := exists_keyword?_of_role? role
      rw [Token.keyword?_eq_some_iff] at spelled
      simp [spelled] at walked
  | @step l ls rest heads names option run ih =>
      by_cases opens : l.token = .punct '('
      · have plain : l.token.keyword? = none := by simp [opens, Token.keyword?]
        obtain rfl := option.eq_nil plain
        have bare : l.role?.all OptionRole.isBare = true := by simp [role?, plain]
        have unnamed (names : OptionNames) : l.addTo column names = names := by simp [addTo, plain]
        have more := OptionRun.step (.bare bare) (OptionRun.step notNull_isBare run)
        refine ⟨_, _, _, ?_, more, ?_⟩
        · simp [outside, depthAfter_open opens, depthAfter_flat flat_notNull]
        · rw [unnamed, unnamed]
          rfl
      · obtain ⟨rest', heads', names', same, run', longer⟩ := ih (by simpa [opens] using walked)
        rw [← opensGroup_congr same] at option
        refine ⟨_, _, _, ?_, .step option run', ?_⟩
        · rw [option.outside_append opens, option.outside_append opens, same]
        · obtain ⟨added, counts⟩ := exists_length_addTo column l
          rw [counts, counts, longer, Nat.add_right_comm]

end OptionRun

/-! ## Definitions -/

/-- What a definition says about its column besides values and parameters. -/
structure Outline where
  name : Option String
  typeName : Option String
  options : OptionNames
  deriving DecidableEq

def Field.outline (field : Field) : Outline where
  name := field.name
  typeName := field.type.map ColumnType.name
  options :=
    { ofType := ((field.type.map ColumnType.options).getD []).map ColumnOption.name
      ofColumn := field.options.map ColumnOption.name
      key := field.key }

namespace Lexeme

/-- The name of the type that a lexeme is. -/
def typeName? (l : Lexeme) : Option String :=
  match l.token with
  | .keyword word => some word
  | .identifier name => some (upperAscii name)
  | _ => none

/-- The lexemes of a column's name and of its type with the parameters, given whether a group
    opens behind them. -/
inductive IsColumnHead (opened : Bool) (name typeName : String) : List Lexeme → Prop where
  | bare {named : List Lexeme} {l : Lexeme} (denoted : Denotes name named)
      (typed : l.typeName? = some typeName) (unopened : opened = false) :
      IsColumnHead opened name typeName (named ++ [l])
  | parameters {named ls : List Lexeme} {l : Lexeme} (denoted : Denotes name named)
      (typed : l.typeName? = some typeName) (h : IsGroup ls) :
      IsColumnHead opened name typeName (named ++ l :: ls)

theorem flat_of_typeName? {l : Lexeme} {typeName : String} (h : l.typeName? = some typeName) :
    l.Flat := by
  cases token : l.token with
  | punct | literal => simp [typeName?, token] at h
  | keyword | identifier => simp [Flat, token, Token.isPunct]

theorem IsColumnHead.balanced {opened : Bool} {name typeName : String} {ls : List Lexeme}
    (h : IsColumnHead opened name typeName ls) : Balanced ls := by
  cases h with
  | bare denoted typed =>
      exact (balanced_of_flat (flat_of_denoted denoted)).append (.flat (flat_of_typeName? typed) .nil)
  | parameters denoted typed h =>
      exact (balanced_of_flat (flat_of_denoted denoted)).append
        (.flat (flat_of_typeName? typed) h.balanced)

theorem Denotes.unplaced {name : String} {ls : List Lexeme} (h : Denotes name ls) :
    Denotes name (ls.map unplaced) := by
  induction h with
  | last named => exact .last named
  | qualified named dotted _ ih => exact .qualified named dotted ih

theorem IsColumnHead.outside {opened : Bool} {name typeName : String} {ls : List Lexeme}
    (h : IsColumnHead opened name typeName ls) :
    IsColumnHead opened name typeName (outside 0 ls) := by
  cases h with
  | bare denoted typed unopened =>
      have flat := flat_of_denoted denoted
      rw [outside_balanced_append (balanced_of_flat flat), outside_flat flat, outside_single]
      exact .bare denoted.unplaced typed unopened
  | parameters denoted typed h =>
      have flat := flat_of_denoted denoted
      rw [outside_balanced_append (balanced_of_flat flat), outside_flat flat, outside_zero_cons,
        depthAfter_flat (flat_of_typeName? typed)]
      exact .parameters denoted.unplaced typed h.outside

end Lexeme

namespace Cursor

/-- The name of a column, the name of its type, and the place where its options start. -/
def columnHead? (c : Cursor) : Option (String × String × Cursor) :=
  c.name.toOption.bind fun (name, typed) =>
    typed.typeName?.bind fun typeName =>
      typed.next.typeParameters.toOption.map fun (_, after) => (name, typeName, after)

/-- The lexemes that the options of a column start with. -/
def optionStarts (c : Cursor) : List Lexeme :=
  (c.columnHead?.map fun (_, _, after) => after.optionHeads).getD []

/-- The outline of the column that is read. -/
def outline? (c : Cursor) : Option Outline :=
  c.columnHead?.bind fun (name, typeName, after) =>
    (after.optionNames? name).map fun names => ⟨some name, some typeName, names⟩

theorem outline?_eq (c : Cursor) : c.outline? = c.column.toOption.map Field.outline := by
  unfold outline? columnHead? column
  cases c.name with
  | error e => rfl
  | ok read =>
      obtain ⟨name, typed⟩ := read
      cases typeName : typed.typeName? with
      | none => simp [Except.toOption, typeName, bind, Except.bind, complain]
      | some typeName =>
          cases parameters : typed.next.typeParameters with
          | error e => simp [Except.toOption, *, bind, Except.bind]
          | ok read =>
              obtain ⟨_, after⟩ := read
              cases tail : columnTail name after with
              | error e => simp [Except.toOption, *, bind, Except.bind, optionNames?]
              | ok tail =>
                  simp [Except.toOption, *, bind, Except.bind, optionNames?, pure, Except.pure,
                    Field.outline, ColumnTail.names]

theorem typeName?_eq (c : Cursor) : c.typeName? = c.rest.head?.bind Lexeme.typeName? := by
  unfold typeName?
  cases c.rest with
  | nil => rfl
  | cons l ls => cases token : l.token <;> simp [Lexeme.typeName?, token]

theorem exists_of_typeParameters {c after : Cursor} {parameters : List String}
    (h : c.typeParameters = .ok (parameters, after)) :
    (opensGroup after.rest = false ∧ c.rest = after.rest) ∨
      ∃ ls, IsGroup ls ∧ c.rest = ls ++ after.rest := by
  unfold typeParameters at h
  split at h
  · split at h
    · rename_i read
      cases h
      exact .inr (exists_isGroup read)
    · simp at h
  · rename_i unopened
    cases h
    exact .inl ⟨Bool.eq_false_iff.mpr unopened, rfl⟩

theorem exists_isColumnHead {c after : Cursor} {name typeName : String}
    (h : c.columnHead? = some (name, typeName, after)) :
    ∃ front, IsColumnHead (opensGroup after.rest) name typeName front ∧
      c.rest = front ++ after.rest := by
  obtain ⟨⟨found, typed⟩, read, h⟩ := Option.bind_eq_some_iff.mp h
  obtain ⟨foundType, typing, h⟩ := Option.bind_eq_some_iff.mp h
  obtain ⟨⟨parameters, left⟩, ended, same⟩ := Option.map_eq_some_iff.mp h
  cases same
  cases naming : c.name with
  | error e => simp [naming, Except.toOption] at read
  | ok taken =>
      rw [naming] at read
      cases read
      obtain ⟨named, denoted, split, -⟩ := exists_denotes_of_name naming
      rw [typeName?_eq] at typing
      obtain ⟨l, first, typing⟩ := Option.bind_eq_some_iff.mp typing
      obtain ⟨rest, typedRest⟩ := List.head?_eq_some_iff.mp first
      have next : typed.next.rest = rest := by simp [Cursor.next, typedRest]
      cases given : typed.next.typeParameters with
      | error e => simp [given, Except.toOption] at ended
      | ok found =>
          rw [given] at ended
          cases ended
          obtain ⟨unopened, same⟩ | ⟨ls, group, taken⟩ := exists_of_typeParameters given
          · refine ⟨named ++ [l], .bare denoted typing unopened, ?_⟩
            rw [split, typedRest, ← next, same, List.append_assoc, List.singleton_append]
          · refine ⟨named ++ l :: ls, .parameters denoted typing group, ?_⟩
            rw [split, typedRest, ← next, taken, List.append_assoc, List.cons_append]

theorem columnHead?_of_isColumnHead {name typeName : String} {front rest : List Lexeme}
    (h : IsColumnHead (opensGroup rest) name typeName front) (stop : Nat) :
    columnHead? ⟨front ++ rest, stop⟩ = some (name, typeName, ⟨rest, stop⟩) := by
  have typedHead {named : List Lexeme} {l : Lexeme} (denoted : Denotes name named)
      (typed : l.typeName? = some typeName) (ls : List Lexeme) :
      columnHead? ⟨named ++ l :: ls, stop⟩ =
        (typeParameters ⟨ls, stop⟩).toOption.map fun (_, after) => (name, typeName, after) := by
    have undotted : atPunct ⟨l :: ls, stop⟩ '.' = false := by
      cases token : l.token with
      | punct | literal => simp [Lexeme.typeName?, token] at typed
      | keyword | identifier => simp [atPunct, token, Token.isPunct]
    have word : typeName? ⟨l :: ls, stop⟩ = some typeName := by
      rw [typeName?_eq]
      exact typed
    rw [columnHead?, name_denoted denoted undotted]
    simp only [Except.toOption, Option.bind_some, word]
    rfl
  cases h with
  | bare denoted typed unopened =>
      have bare : typeParameters ⟨rest, stop⟩ = .ok ([], ⟨rest, stop⟩) :=
        if_neg (Bool.eq_false_iff.mp unopened)
      rw [List.append_assoc, List.singleton_append, typedHead denoted typed, bare]
      rfl
  | @parameters named ls l denoted typed h =>
      obtain ⟨inside, read⟩ := exists_group_of_isGroup h rest stop
      have opened : atPunct ⟨ls ++ rest, stop⟩ '(' = true := h.opensGroup_append rest
      rw [List.append_assoc, List.cons_append, typedHead denoted typed, typeParameters, if_pos opened,
        read]
      rfl

end Cursor

/-- A definition of a column, read as the lexemes that its options start with and as its
    outline. -/
inductive DefinitionRun : List Lexeme → List Lexeme → Outline → Prop where
  | intro {name typeName : String} {front ls heads : List Lexeme} {names : OptionNames}
      (head : IsColumnHead (opensGroup ls) name typeName front)
      (run : OptionRun name ls heads names) :
      DefinitionRun (front ++ ls) heads ⟨some name, some typeName, names⟩

namespace DefinitionRun

variable {xs ys heads : List Lexeme} {outline : Outline}

theorem exists_of_outline? {c : Cursor} (h : c.outline? = some outline) :
    ∃ heads, DefinitionRun c.rest heads outline := by
  obtain ⟨⟨name, typeName, after⟩, read, h⟩ := Option.bind_eq_some_iff.mp h
  obtain ⟨names, options, rfl⟩ := Option.map_eq_some_iff.mp h
  obtain ⟨front, head, split⟩ := Cursor.exists_isColumnHead read
  obtain ⟨heads, run⟩ := OptionRun.exists_of_optionNames? options
  rw [split]
  exact ⟨heads, .intro head run⟩

theorem read (h : DefinitionRun xs heads outline) (stop : Nat) :
    Cursor.outline? ⟨xs, stop⟩ = some outline ∧ Cursor.optionStarts ⟨xs, stop⟩ = heads := by
  cases h with
  | intro head run =>
      obtain ⟨names, starts⟩ := run.read stop
      rw [Cursor.outline?, Cursor.optionStarts, Cursor.columnHead?_of_isColumnHead head]
      simp [names, starts]

theorem exists_outside (h : DefinitionRun xs heads outline) (quiet : quietFrom 0 heads = true) :
    ∃ heads', DefinitionRun (outside 0 xs) heads' outline := by
  cases h with
  | intro head run =>
      obtain ⟨heads', run'⟩ := run.exists_outside quiet
      have left := head.outside
      rw [← opensGroup_outside] at left
      rw [outside_balanced_append head.balanced]
      exact ⟨heads', .intro left run'⟩

theorem exists_opening_outside_iff (h : DefinitionRun xs heads outline) (stop : Nat) :
    (∃ l ∈ Cursor.optionStarts ⟨outside 0 xs, stop⟩, l.token = .punct '(') ↔
      ∃ l ∈ heads, l.token = .punct '(' := by
  cases h with
  | intro head run =>
      have left := head.outside
      rw [← opensGroup_outside] at left
      rw [outside_balanced_append head.balanced, Cursor.optionStarts,
        Cursor.columnHead?_of_isColumnHead left]
      exact run.exists_opening_outside_iff stop

/-- A definition with a group that is walked through has the same lexemes outside as one with
    another outline. -/
theorem exists_intruded (h : DefinitionRun xs heads outline)
    (walked : ∃ l ∈ heads, l.token = .punct '(') :
    ∃ ys heads' outline', outside 0 ys = outside 0 xs ∧ DefinitionRun ys heads' outline' ∧
      outline' ≠ outline := by
  cases h with
  | @intro name typeName front ls heads names head run =>
      obtain ⟨ls', heads', names', same, run', longer⟩ := run.exists_intruded walked
      rw [← opensGroup_congr same] at head
      refine ⟨_, _, _, ?_, .intro head run', ?_⟩
      · rw [outside_balanced_append head.balanced, outside_balanced_append head.balanced, same]
      · intro equal
        obtain ⟨-, -, rfl⟩ := Outline.mk.inj equal
        omega

/-- What is left outside determines the outline of quiet definitions. -/
theorem outline_eq {outline' : Outline} {heads' : List Lexeme}
    (h : DefinitionRun xs heads outline) (h' : DefinitionRun ys heads' outline')
    (same : outside 0 ys = outside 0 xs) (quiet : quietFrom 0 heads = true)
    (quiet' : quietFrom 0 heads' = true) : outline' = outline := by
  obtain ⟨_, left⟩ := h.exists_outside quiet
  obtain ⟨_, left'⟩ := h'.exists_outside quiet'
  rw [same] at left'
  exact Option.some.inj ((left'.read 0).1.symm.trans (left.read 0).1)

end DefinitionRun

theorem Lexeme.quietFrom_of_unopened {heads : List Lexeme}
    (h : ∀ l ∈ heads, l.token ≠ .punct '(') : quietFrom 0 heads = true := by
  induction heads with
  | nil => rfl
  | cons l heads ih =>
      rw [List.forall_mem_cons] at h
      rw [quietFrom, depthAfter_of_unopened h.1, ih h.2]
      rfl

/-! ## Outlines and what is outside -/

/-- A definition that is read as a column. -/
structure ReadsColumn (xs : List Lexeme) (field : Field) : Prop where
  column : (Cursor.ofSlice xs).atAnyKeyword keyClauseWords = false
  reads : (Cursor.ofSlice xs).definition = .ok (some field)

/-- Whether an option of a definition starts with an opening parenthesis, so that the group it
    opens is walked through. -/
def walksGroup (xs : List Lexeme) : Bool :=
  (Cursor.ofSlice xs).optionStarts.any (·.token.isPunct '(')

/-- Whether no option of a definition starts with a keyword inside a group. -/
def quietGroups (xs : List Lexeme) : Bool :=
  quietFrom 0 (Cursor.ofSlice xs).optionStarts

theorem Cursor.definition_eq_ok_iff {c : Cursor} (column : c.atAnyKeyword keyClauseWords = false)
    (field : Field) : c.definition = .ok (some field) ↔ c.column = .ok field := by
  rw [definition, column, if_neg Bool.false_ne_true]
  cases c.column with
  | error e => simp [bind, Except.bind]
  | ok found => simp [bind, Except.bind, pure, Except.pure]

theorem Cursor.atAnyKeyword_outside (xs : List Lexeme) (stop stop' : Nat) (words : List String) :
    atAnyKeyword ⟨outside 0 xs, stop⟩ words = atAnyKeyword ⟨xs, stop'⟩ words := by
  have at_ (word : String) : atKeyword ⟨outside 0 xs, stop⟩ word = atKeyword ⟨xs, stop'⟩ word := by
    cases xs with
    | nil => rfl
    | cons l ls => rw [outside_zero_cons]; rfl
  exact congrArg words.any (funext at_)

namespace ReadsColumn

variable {xs : List Lexeme} {x : Field}

theorem exists_run (h : ReadsColumn xs x) :
    DefinitionRun xs (Cursor.ofSlice xs).optionStarts x.outline := by
  have column := (Cursor.definition_eq_ok_iff h.column x).mp h.reads
  have read : (Cursor.ofSlice xs).outline? = some x.outline := by
    rw [Cursor.outline?_eq, column]
    rfl
  obtain ⟨heads, run⟩ := DefinitionRun.exists_of_outline? read
  have starts : (Cursor.ofSlice xs).optionStarts = heads := (run.read _).2
  rw [starts]
  exact run

theorem exists_of_run {heads : List Lexeme} {outline : Outline}
    (run : DefinitionRun xs heads outline)
    (column : (Cursor.ofSlice xs).atAnyKeyword keyClauseWords = false) :
    ∃ field, ReadsColumn xs field ∧ field.outline = outline := by
  have read : (Cursor.ofSlice xs).outline? = some outline := (run.read _).1
  rw [Cursor.outline?_eq] at read
  cases found : (Cursor.ofSlice xs).column with
  | error e => simp [found, Except.toOption] at read
  | ok field =>
      rw [found] at read
      exact ⟨field, ⟨column, (Cursor.definition_eq_ok_iff column field).mpr found⟩,
        Option.some.inj read⟩

theorem walksGroup_iff : walksGroup xs = true ↔
    ∃ l ∈ (Cursor.ofSlice xs).optionStarts, l.token = .punct '(' := by
  simp only [walksGroup, List.any_eq_true, Token.isPunct_iff]

theorem quiet_of_walksGroup (h : walksGroup xs = false) : quietGroups xs = true := by
  refine quietFrom_of_unopened fun l member opens => ?_
  exact Bool.eq_false_iff.mp h (walksGroup_iff.mpr ⟨l, member, opens⟩)

theorem walksGroup_congr {ys : List Lexeme} {y : Field} (h : ReadsColumn xs x)
    (h' : ReadsColumn ys y) (same : outside 0 ys = outside 0 xs) : walksGroup ys = walksGroup xs := by
  rw [Bool.eq_iff_iff, walksGroup_iff, walksGroup_iff,
    ← h.exists_run.exists_opening_outside_iff 0, ← h'.exists_run.exists_opening_outside_iff 0, same]

/-- The lexemes outside of groups determine the outline of a column exactly if no group of the
    definition is walked through. Two definitions with groups that are walked through have one
    outline at least where no keyword in these groups is read as an option. -/
theorem outline_determined_iff (h : ReadsColumn xs x) :
    ((∀ ys y, ReadsColumn ys y → outside 0 ys = outside 0 xs → y.outline = x.outline) ↔
      walksGroup xs = false) ∧
    ∀ ys y, ReadsColumn ys y → outside 0 ys = outside 0 xs → quietGroups xs = true →
      quietGroups ys = true → y.outline = x.outline := by
  have quiet (ys : List Lexeme) (y : Field) (h' : ReadsColumn ys y)
      (same : outside 0 ys = outside 0 xs) (hx : quietGroups xs = true)
      (hy : quietGroups ys = true) : y.outline = x.outline :=
    h.exists_run.outline_eq h'.exists_run same hx hy
  refine ⟨⟨?_, ?_⟩, quiet⟩
  · intro determined
    rw [Bool.eq_false_iff]
    intro walked
    obtain ⟨ys, _, outline, same, run, different⟩ :=
      h.exists_run.exists_intruded (walksGroup_iff.mp walked)
    have column : (Cursor.ofSlice ys).atAnyKeyword keyClauseWords = false := by
      rw [Cursor.ofSlice, ← Cursor.atAnyKeyword_outside ys 0, same,
        Cursor.atAnyKeyword_outside xs 0 (Cursor.ofSlice xs).stop]
      exact h.column
    obtain ⟨y, reads, rfl⟩ := exists_of_run run column
    exact different (determined ys y reads same)
  · intro untouched ys y h' same
    have untouched' : walksGroup ys = false := by rw [walksGroup_congr h h' same, untouched]
    exact quiet ys y h' same (quiet_of_walksGroup untouched) (quiet_of_walksGroup untouched')

/-- A column of type `INT` with bare options. -/
def intColumn (options : List String) : Field where
  name := some "b"
  type := some { name := "INT" }
  options := options.map ColumnOption.flag

/-- The lexemes of `b INT CHECK (b IS NOT NULL)`. -/
def checkedNotNull : List Lexeme :=
  [⟨.identifier "b", "b", 0, 1⟩, ⟨.keyword "INT", "INT", 2, 5⟩, ⟨.keyword "CHECK", "CHECK", 6, 11⟩,
    ⟨.punct '(', "(", 12, 13⟩, ⟨.identifier "b", "b", 13, 14⟩, ⟨.identifier "IS", "IS", 15, 17⟩,
    ⟨.keyword "NOT NULL", "NOT NULL", 18, 26⟩, ⟨.punct ')', ")", 26, 27⟩]

/-- Nothing in the condition of a check becomes an option, whatever the condition is. -/
theorem outline_determined_check :
    tokenize "b INT CHECK (b IS NOT NULL)" = .ok checkedNotNull ∧
    ReadsColumn checkedNotNull (intColumn []) ∧
    ∀ ys y, ReadsColumn ys y → outside 0 ys = outside 0 checkedNotNull →
      y.outline = (intColumn []).outline := by
  have reads : ReadsColumn checkedNotNull (intColumn []) :=
    ⟨by decide +kernel, by decide +kernel⟩
  have untouched : walksGroup checkedNotNull = false := by decide +kernel
  exact ⟨by decide +kernel, reads, reads.outline_determined_iff.1.mpr untouched⟩

/-- The lexemes of `b INT AS (a)`. -/
def generated : List Lexeme :=
  [⟨.identifier "b", "b", 0, 1⟩, ⟨.keyword "INT", "INT", 2, 5⟩, ⟨.keyword "AS", "AS", 6, 8⟩,
    ⟨.punct '(', "(", 9, 10⟩, ⟨.identifier "a", "a", 10, 11⟩, ⟨.punct ')', ")", 11, 12⟩]

/-- The lexemes of `b INT AS (a IS NOT NULL)`. -/
def generatedNotNull : List Lexeme :=
  [⟨.identifier "b", "b", 0, 1⟩, ⟨.keyword "INT", "INT", 2, 5⟩, ⟨.keyword "AS", "AS", 6, 8⟩,
    ⟨.punct '(', "(", 9, 10⟩, ⟨.identifier "a", "a", 10, 11⟩, ⟨.identifier "IS", "IS", 12, 14⟩,
    ⟨.keyword "NOT NULL", "NOT NULL", 15, 23⟩, ⟨.punct ')', ")", 23, 24⟩]

/-- The expression of a generated column makes the column `NOT NULL`. -/
theorem outline_differs_generated :
    (tokenize "b INT AS (a)" = .ok generated ∧
      tokenize "b INT AS (a IS NOT NULL)" = .ok generatedNotNull) ∧
    (ReadsColumn generated (intColumn ["AS"]) ∧
      ReadsColumn generatedNotNull (intColumn ["AS", "NOT NULL"])) ∧
    outside 0 generatedNotNull = outside 0 generated ∧
    (intColumn ["AS", "NOT NULL"]).outline ≠ (intColumn ["AS"]).outline ∧
    Script.parse "CREATE TABLE t (b INT AS (a IS NOT NULL))" =
      .ok [.create ⟨"t", [intColumn ["AS", "NOT NULL"]]⟩] ∧
    (Migration.each [.create ⟨"t", [intColumn ["AS", "NOT NULL"]]⟩] 0).map Migration.up =
      ["Schema::create('t', function (Blueprint $table) \x7b\n\t$table->integer('b');\n\x7d);"] := by
  refine ⟨⟨by decide +kernel, by decide +kernel⟩, ⟨⟨?_, ?_⟩, ⟨?_, ?_⟩⟩, ?_, ?_, ?_, ?_⟩
  all_goals decide +kernel

end ReadsColumn

end TableShift
