import TableShift.Proofs.TableNames

/-! # Column options one by one

The options behind the type of a column are read one after the other. An option takes its
word, and with it a value or a condition: a lexeme, a group, or a word called on a group. A
lexeme that is no keyword counts as an option that takes nothing else, parentheses included.
So each option tells which lexemes it takes, and the names of the options can be read off
their words.
-/

namespace TableShift

open Lexeme

/-! ## Groups -/

/-- Lexemes that are a pair of parentheses with balanced lexemes between them. -/
inductive Lexeme.IsGroup : List Lexeme → Prop where
  | intro {opening closing : Lexeme} {inside : List Lexeme} (opens : opening.token = .punct '(')
      (inner : Balanced inside) (closes : closing.token = .punct ')') :
      IsGroup (opening :: (inside ++ [closing]))

namespace Lexeme

theorem IsGroup.balanced {ls : List Lexeme} (h : IsGroup ls) : Balanced ls := by
  cases h with
  | intro opens inner closes => exact .group opens inner closes .nil

/-- Lexemes in which `depth` parentheses too many are closed. -/
inductive Closes : Nat → List Lexeme → Prop where
  | balanced {ls : List Lexeme} (h : Balanced ls) : Closes 0 ls
  | close {depth : Nat} {before ls : List Lexeme} {closing : Lexeme} (first : Balanced before)
      (closes : closing.token = .punct ')') (rest : Closes depth ls) :
      Closes (depth + 1) (before ++ closing :: ls)

namespace Closes

theorem flat_cons {depth : Nat} {l : Lexeme} {ls : List Lexeme} (flat : l.Flat)
    (h : Closes depth ls) : Closes depth (l :: ls) := by
  cases h with
  | balanced h => exact .balanced (.flat flat h)
  | close first closes rest => exact .close (.flat flat first) closes rest

theorem open_cons {depth : Nat} {l : Lexeme} {ls : List Lexeme} (opens : l.token = .punct '(')
    (h : Closes (depth + 1) ls) : Closes depth (l :: ls) := by
  cases h with
  | @close _ before ls closing first closes rest =>
      cases rest with
      | balanced rest => exact .balanced (.group opens first closes rest)
      | close second closes' rest =>
          have grouped := Balanced.group opens first closes second
          have split := Closes.close grouped closes' rest
          rwa [List.cons_append, List.append_assoc, List.cons_append] at split

end Closes

end Lexeme

namespace Cursor

theorem exists_closes_of_splitClose {depth : Nat} {ls inside after : List Lexeme}
    (h : splitClose depth ls = some (inside, after)) :
    Closes depth inside ∧ ∃ closing : Lexeme, closing.token = .punct ')' ∧
      ls = inside ++ closing :: after := by
  induction ls generalizing depth inside with
  | nil => simp [splitClose] at h
  | cons l ls ih =>
      have kept {depth' : Nat} (read : (splitClose depth' ls).map (keepInside l) =
          some (inside, after)) :
          ∃ inner, Closes depth' inner ∧ inside = l :: inner ∧
            ∃ closing : Lexeme, closing.token = .punct ')' ∧
              l :: ls = inside ++ closing :: after := by
        obtain ⟨⟨inner, left⟩, found, same⟩ := Option.map_eq_some_iff.mp read
        obtain ⟨rfl, rfl⟩ := Prod.mk.inj same
        obtain ⟨closed, closing, closes, whole⟩ := ih found
        exact ⟨inner, closed, rfl, closing, closes, congrArg (l :: ·) whole⟩
      rcases l.opens_or_closes_or_flat with opens | closes | flat
      · rw [splitClose_open _ _ opens] at h
        obtain ⟨inner, closed, rfl, split⟩ := kept h
        exact ⟨closed.open_cons opens, split⟩
      · cases depth with
        | zero =>
            rw [splitClose_end _ closes] at h
            obtain ⟨rfl, rfl⟩ := Prod.mk.inj (Option.some.inj h)
            exact ⟨.balanced .nil, l, closes, rfl⟩
        | succ depth =>
            rw [splitClose_close _ _ closes] at h
            obtain ⟨inner, closed, rfl, split⟩ := kept h
            exact ⟨.close .nil closes closed, split⟩
      · rw [splitClose_flat _ _ flat] at h
        obtain ⟨inner, closed, rfl, split⟩ := kept h
        exact ⟨closed.flat_cons flat, split⟩

theorem exists_isGroup {c after : Cursor} {inside : List Lexeme}
    (h : c.group = .ok (inside, after)) :
    ∃ ls, IsGroup ls ∧ c.rest = ls ++ after.rest := by
  unfold group at h
  split at h
  · rename_i opened
    split at h
    · rename_i found
      cases h
      obtain ⟨opening, ls, rest, opens⟩ := exists_of_opensGroup opened
      rw [rest] at found
      obtain ⟨closed, closing, closes, split⟩ := exists_closes_of_splitClose found
      cases closed with
      | balanced inner =>
          refine ⟨_, .intro opens inner closes, ?_⟩
          simp only [rest, List.cons_append, List.append_assoc, List.nil_append]
          exact congrArg _ split
    · simp at h
  · simp [complain] at h

theorem exists_group_of_isGroup {ls : List Lexeme} (h : IsGroup ls) (rest : List Lexeme)
    (stop : Nat) : ∃ inside, group ⟨ls ++ rest, stop⟩ = .ok (inside, ⟨rest, stop⟩) := by
  cases h with
  | @intro _ _ inside opens inner closes =>
      refine ⟨inside, ?_⟩
      rw [List.cons_append, List.append_assoc, List.singleton_append]
      exact group_balanced opens inner closes rest stop

end Cursor

theorem Lexeme.IsGroup.opensGroup_append {ls : List Lexeme} (h : IsGroup ls) (rest : List Lexeme) :
    opensGroup (ls ++ rest) = true := by
  cases h with
  | intro opens => exact Token.isPunct_iff.mpr opens

/-! ## Values -/

namespace Lexeme

/-- Whether a lexeme is a value whatever follows it. -/
def isConstant (l : Lexeme) : Bool :=
  match l.token with
  | .literal _ => true
  | token => token.isKeyword "NULL"

/-- Whether a lexeme is a word that may be called on a group. -/
def isWord (l : Lexeme) : Bool :=
  match l.token with
  | .identifier _ => true
  | .keyword word => word != "NULL"
  | _ => false

/-- The lexemes of an option's value, given whether a group opens behind them. -/
inductive IsValue (opened : Bool) : List Lexeme → Prop where
  | group {ls : List Lexeme} (h : IsGroup ls) : IsValue opened ls
  | constant {l : Lexeme} (constant : l.isConstant = true) : IsValue opened [l]
  | word {l : Lexeme} (word : l.isWord = true) (unopened : opened = false) : IsValue opened [l]
  | call {l : Lexeme} {ls : List Lexeme} (word : l.isWord = true) (h : IsGroup ls) :
      IsValue opened (l :: ls)

theorem flat_of_isConstant {l : Lexeme} (h : l.isConstant = true) : l.Flat := by
  cases token : l.token with
  | punct => simp [isConstant, token, Token.isKeyword] at h
  | keyword | identifier | literal => simp [Flat, token, Token.isPunct]

theorem flat_of_isWord {l : Lexeme} (h : l.isWord = true) : l.Flat := by
  cases token : l.token with
  | punct => simp [isWord, token] at h
  | keyword | identifier | literal => simp [Flat, token, Token.isPunct]

theorem IsValue.balanced {opened : Bool} {ls : List Lexeme} (h : IsValue opened ls) :
    Balanced ls := by
  cases h with
  | group h => exact h.balanced
  | constant constant => exact .flat (flat_of_isConstant constant) .nil
  | word word => exact .flat (flat_of_isWord word) .nil
  | call word h => exact .flat (flat_of_isWord word) h.balanced

end Lexeme

namespace Cursor

theorem exists_isValue {c after : Cursor} {value : Value}
    (h : c.optionValue = .ok (value, after)) :
    ∃ ls, IsValue (opensGroup after.rest) ls ∧ c.rest = ls ++ after.rest := by
  unfold optionValue at h
  split at h
  · simp [complain] at h
  · rename_i l ls rest
    have next : c.next.rest = ls := by simp [Cursor.next, rest]
    split at h
    · split at h
      · split at h
        · rename_i read
          cases h
          obtain ⟨ls, group, split⟩ := exists_isGroup read
          exact ⟨ls, .group group, split⟩
        · simp at h
      · simp [complain] at h
    · rename_i token
      cases h
      exact ⟨[l], .constant (by simp [isConstant, token]), by simp [rest, next]⟩
    · rename_i unpunct unliteral
      split at h
      · rename_i null
        cases h
        refine ⟨[l], .constant ?_, by simp [rest, next]⟩
        simp [isConstant, Token.isKeyword_iff.mp null, Token.isKeyword]
      · rename_i present
        have word : l.isWord = true := by
          cases token : l.token with
          | punct mark => exact absurd token (unpunct mark)
          | literal value => exact absurd token (unliteral value)
          | identifier => simp [isWord, token]
          | keyword => simpa [isWord, token, Token.isKeyword] using present
        split at h
        · split at h
          · rename_i read
            cases h
            obtain ⟨ls, group, split⟩ := exists_isGroup read
            exact ⟨l :: ls, .call word group, by rw [rest, ← next, split, List.cons_append]⟩
          · simp at h
        · rename_i unopened
          cases h
          exact ⟨[l], .word word (Bool.eq_false_iff.mpr unopened), by simp [rest, next]⟩

/-- A value is read whatever follows it, as long as no group opens where none did. -/
theorem exists_optionValue_of_isValue {ls rest : List Lexeme}
    (h : IsValue (opensGroup rest) ls) (stop : Nat) :
    ∃ value, optionValue ⟨ls ++ rest, stop⟩ = .ok (value, ⟨rest, stop⟩) := by
  have called {l : Lexeme} (word : l.isWord = true) (ls : List Lexeme) :
      optionValue ⟨l :: ls, stop⟩ =
        if opensGroup ls then
          (group ⟨ls, stop⟩).map fun read =>
            (.expr (l.raw ++ "(" ++ expressionText read.1 ++ ")"), read.2)
        else .ok (.expr l.raw, ⟨ls, stop⟩) := by
    cases token : l.token with
    | punct | literal => simp [isWord, token] at word
    | identifier | keyword =>
        have present : l.token.isKeyword "NULL" = false := by
          simp_all [isWord, Token.isKeyword]
        simp only [optionValue, token] at present ⊢
        rw [present, if_neg Bool.false_ne_true]
        have after : next ⟨l :: ls, stop⟩ = ⟨ls, stop⟩ := rfl
        rw [after]
        cases group ⟨ls, stop⟩ <;> rfl
  cases h with
  | group h =>
      obtain ⟨inside, read⟩ := exists_group_of_isGroup h rest stop
      cases h with
      | intro opens =>
          refine ⟨.expr ("(" ++ expressionText inside ++ ")"), ?_⟩
          simp only [List.cons_append, List.append_assoc, List.nil_append] at read ⊢
          simp [optionValue, opens, read]
  | @constant l constant =>
      cases token : l.token with
      | literal value => exact ⟨value, by simp [optionValue, token, next]⟩
      | keyword word =>
          have null : word = "NULL" := by simpa [isConstant, token, Token.isKeyword] using constant
          exact ⟨.null, by simp [optionValue, token, null, Token.isKeyword, next]⟩
      | identifier | punct => simp [isConstant, token, Token.isKeyword] at constant
  | @word l word unopened =>
      refine ⟨.expr l.raw, ?_⟩
      rw [List.singleton_append, called word, unopened, if_neg Bool.false_ne_true]
  | @call l _ word h =>
      obtain ⟨inside, read⟩ := exists_group_of_isGroup h rest stop
      refine ⟨.expr (l.raw ++ "(" ++ expressionText inside ++ ")"), ?_⟩
      rw [List.cons_append, called word, if_pos (h.opensGroup_append rest), read]
      rfl

end Cursor

/-! ## Options -/

/-- What an option of this role adds, its value aside: the name of an option of the type or of
    the column, or a key. -/
structure OptionNames where
  ofType : List String := []
  ofColumn : List String := []
  key : Option Key := none
  deriving DecidableEq

/-- The options behind a type without their values. -/
def ColumnTail.names (tail : ColumnTail) : OptionNames where
  ofType := tail.typeOptions.map ColumnOption.name
  ofColumn := tail.options.map ColumnOption.name
  key := tail.key

namespace OptionRole

/-- Whether an option of this role is only a word. -/
def isBare : OptionRole → Bool
  | typeFlag | key _ | flag => true
  | typeValue | value | check | reference => false

/-- Whether an option of this role has a value. -/
def isValued : OptionRole → Bool
  | typeValue | value => true
  | typeFlag | key _ | check | reference | flag => false

end OptionRole

namespace Lexeme

/-- The meaning of a lexeme among the options of a column, if it is a keyword. -/
def role? (l : Lexeme) : Option OptionRole :=
  l.token.keyword?.map OptionRole.ofKeyword

/-- The names of options with an option that starts with this lexeme in front. -/
def addTo (column : String) (l : Lexeme) (names : OptionNames) : OptionNames :=
  match l.token.keyword? with
  | none => names
  | some word =>
    match OptionRole.ofKeyword word with
    | .typeFlag | .typeValue => { names with ofType := word :: names.ofType }
    | .value | .flag => { names with ofColumn := word :: names.ofColumn }
    | .key kind => { names with key := names.key.or (some ⟨kind, none, [⟨column, none⟩], none⟩) }
    | .check | .reference => names

/-- The lexemes that an option takes besides its first, given whether a group opens behind
    them. -/
inductive IsOption (opened : Bool) (l : Lexeme) : List Lexeme → Prop where
  | bare (role : l.role?.all OptionRole.isBare = true) : IsOption opened l []
  | valued {ls : List Lexeme} (role : l.role?.any OptionRole.isValued = true)
      (h : IsValue opened ls) : IsOption opened l ls
  | check {ls : List Lexeme} (role : l.role? = some .check) (h : IsGroup ls) :
      IsOption opened l ls
  | unchecked (role : l.role? = some .check) (unopened : opened = false) : IsOption opened l []

theorem IsOption.balanced {opened : Bool} {l : Lexeme} {ls : List Lexeme}
    (h : IsOption opened l ls) : Balanced ls := by
  cases h with
  | bare | unchecked => exact .nil
  | valued _ h => exact h.balanced
  | check _ h => exact h.balanced

end Lexeme

namespace Cursor

/-- The place behind an option whose word has this role and stands in front of the cursor. It
    is nowhere if the options end there or if the option is not complete. -/
def behindWord? (role? : Option OptionRole) (c : Cursor) : Option Cursor :=
  if role?.all OptionRole.isBare then some c
  else if role?.any OptionRole.isValued then c.optionValue.toOption.map Prod.snd
  else if role? = some .check then
    if c.atPunct '(' then c.group.toOption.map Prod.snd else some c
  else none

/-- Where the options go on behind the next one. -/
def afterOption? (c : Cursor) : Option Cursor :=
  c.rest.head?.bind fun l => c.next.behindWord? l.role?

theorem exists_of_toOption_map_snd {α : Type} {read : Except SyntaxError (α × Cursor)}
    {after : Cursor} (h : read.toOption.map Prod.snd = some after) :
    ∃ a, read = .ok (a, after) := by
  cases read with
  | error e => simp [Except.toOption] at h
  | ok found =>
      obtain ⟨a, left⟩ := found
      cases h
      exact ⟨a, rfl⟩

theorem exists_isOption {c after : Cursor} (h : c.afterOption? = some after) :
    ∃ l ls, IsOption (opensGroup after.rest) l ls ∧ c.rest = l :: (ls ++ after.rest) := by
  obtain ⟨l, first, h⟩ := Option.bind_eq_some_iff.mp h
  obtain ⟨rest, split⟩ := List.head?_eq_some_iff.mp first
  have behind : c.next.rest = rest := by simp [next, split]
  unfold behindWord? at h
  split at h
  · rename_i role
    cases h
    exact ⟨l, [], .bare role, by rw [split, behind, List.nil_append]⟩
  · split at h
    · rename_i role
      obtain ⟨value, read⟩ := exists_of_toOption_map_snd h
      obtain ⟨ls, shape, taken⟩ := exists_isValue read
      exact ⟨l, ls, .valued role shape, by rw [split, ← behind, taken]⟩
    · split at h
      · rename_i role
        split at h
        · obtain ⟨inside, read⟩ := exists_of_toOption_map_snd h
          obtain ⟨ls, group, taken⟩ := exists_isGroup read
          exact ⟨l, ls, .check role group, by rw [split, ← behind, taken]⟩
        · rename_i unopened
          cases h
          exact ⟨l, [], .unchecked role (Bool.eq_false_iff.mpr unopened),
            by rw [split, behind, List.nil_append]⟩
      · simp at h

theorem isBare_eq_false_of_isValued {role? : Option OptionRole}
    (h : role?.any OptionRole.isValued = true) : role?.all OptionRole.isBare = false := by
  cases role? with
  | none => simp at h
  | some role => cases role <;> simp [OptionRole.isValued] at h <;> rfl

/-- An option is passed whatever follows it, as long as no group opens where none did. -/
theorem afterOption?_of_isOption {l : Lexeme} {ls rest : List Lexeme}
    (h : IsOption (opensGroup rest) l ls) (stop : Nat) :
    afterOption? ⟨l :: (ls ++ rest), stop⟩ = some ⟨rest, stop⟩ := by
  have word : afterOption? ⟨l :: (ls ++ rest), stop⟩ = behindWord? l.role? ⟨ls ++ rest, stop⟩ := rfl
  rw [word, behindWord?]
  cases h with
  | bare role => rw [if_pos role, List.nil_append]
  | valued role h =>
      obtain ⟨value, read⟩ := exists_optionValue_of_isValue h stop
      rw [isBare_eq_false_of_isValued role, if_neg Bool.false_ne_true, if_pos role, read]
      rfl
  | check role h =>
      obtain ⟨inside, read⟩ := exists_group_of_isGroup h rest stop
      have opened : atPunct ⟨ls ++ rest, stop⟩ '(' = true := h.opensGroup_append rest
      rw [role, opened, read]
      rfl
  | unchecked role unopened =>
      have closed : atPunct ⟨rest, stop⟩ '(' = false := unopened
      rw [role, List.nil_append, closed]
      rfl

/-- The names of the options that are read. -/
def optionNames? (column : String) (c : Cursor) : Option OptionNames :=
  (columnTail column c).toOption.map ColumnTail.names

theorem optionNames?_map {column : String} {put : ColumnTail → ColumnTail}
    {add : OptionNames → OptionNames} (added : ∀ tail, (put tail).names = add tail.names)
    (after : Cursor) :
    ((columnTail column after).map put).toOption.map ColumnTail.names =
      (after.optionNames? column).map add := by
  unfold optionNames?
  cases columnTail column after with
  | error e => rfl
  | ok tail => exact congrArg some (added tail)

theorem optionNames?_bind {α : Type} {column : String} {put : α → ColumnTail → ColumnTail}
    {add : OptionNames → OptionNames} (added : ∀ a tail, (put a tail).names = add tail.names)
    (read : Except SyntaxError (α × Cursor)) :
    (read >>= fun found => (columnTail column found.2).map (put found.1)).toOption.map
        ColumnTail.names =
      (read.toOption.map Prod.snd).bind fun after => (after.optionNames? column).map add := by
  cases read with
  | error e => rfl
  | ok found => exact optionNames?_map (added found.1) found.2

theorem optionNames?_cons (column : String) {c : Cursor} {l : Lexeme} {ls : List Lexeme}
    (h : c.rest = l :: ls) :
    c.optionNames? column =
      if l.role? = some .reference then some {}
      else c.afterOption?.bind fun after => (after.optionNames? column).map (l.addTo column) := by
  have word : c.afterOption? = c.next.behindWord? l.role? := by simp [afterOption?, h]
  -- An option without a name of its own leaves the others as they are.
  have unnamed (add : l.addTo column = id) (after : Cursor) :
      (columnTail column after).toOption.map ColumnTail.names =
        (after.optionNames? column).map (l.addTo column) := by
    rw [add, Option.map_id]
    rfl
  rw [optionNames?, columnTail_cons column h, word]
  cases spelled : l.token.keyword? with
  | none =>
      have role : l.role? = none := by simp [role?, spelled]
      have add : l.addTo column = id := funext fun names => by simp [addTo, spelled]
      rw [role]
      exact unnamed add c.next
  | some word =>
      have role : l.role? = some (OptionRole.ofKeyword word) := by simp [role?, spelled]
      rw [role]
      dsimp only
      cases meaning : OptionRole.ofKeyword word with
      | typeFlag =>
          refine optionNames?_map (fun tail => ?_) c.next
          simp [addTo, spelled, meaning, ColumnTail.consType, ColumnTail.names, ColumnOption.name]
      | flag =>
          refine optionNames?_map (fun tail => ?_) c.next
          simp [addTo, spelled, meaning, ColumnTail.consOption, ColumnTail.names, ColumnOption.name]
      | key kind =>
          refine optionNames?_map (fun tail => ?_) c.next
          simp [addTo, spelled, meaning, ColumnTail.consKey, ColumnTail.names]
      | typeValue =>
          refine @optionNames?_bind _ column (fun value => .consType (.keyValue word value))
            (l.addTo column) (fun value tail => ?_) c.next.optionValue
          simp [addTo, spelled, meaning, ColumnTail.consType, ColumnTail.names, ColumnOption.name]
      | value =>
          refine @optionNames?_bind _ column (fun value => .consOption (.keyValue word value))
            (l.addTo column) (fun value tail => ?_) c.next.optionValue
          simp [addTo, spelled, meaning, ColumnTail.consOption, ColumnTail.names, ColumnOption.name]
      | check =>
          have add : l.addTo column = id := funext fun names => by simp [addTo, spelled, meaning]
          cases opened : c.next.atPunct '(' with
          | true =>
              have unput (after : Cursor) :
                  columnTail column after = (columnTail column after).map id := by
                cases columnTail column after <;> rfl
              have place : c.next.behindWord? (some .check) = c.next.group.toOption.map Prod.snd := by
                simp [behindWord?, opened, OptionRole.isBare, OptionRole.isValued]
              dsimp only
              rw [place, add, if_pos rfl, funext fun read : List Lexeme × Cursor => unput read.2]
              exact @optionNames?_bind _ column (fun _ => id) id (fun _ _ => rfl) c.next.group
          | false =>
              have place : c.next.behindWord? (some .check) = some c.next := by
                simp [behindWord?, opened, OptionRole.isBare, OptionRole.isValued]
              rw [place]
              exact unnamed add c.next
      | reference => rfl

/-! ## Runs of options -/

theorem length_lt_of_afterOption? {c after : Cursor} (h : c.afterOption? = some after) :
    after.rest.length < c.rest.length := by
  obtain ⟨l, ls, _, split⟩ := exists_isOption h
  simp only [split, List.length_cons, List.length_append]
  omega

/-- The lexemes that options start with, up to the one that ends them. -/
def optionHeads (c : Cursor) : List Lexeme :=
  match c.rest with
  | [] => []
  | l :: _ =>
    match _passed : c.afterOption? with
    | none => [l]
    | some after => l :: after.optionHeads
termination_by c.rest.length
decreasing_by exact length_lt_of_afterOption? _passed

theorem optionHeads_nil {c : Cursor} (h : c.rest = []) : c.optionHeads = [] := by
  rw [optionHeads, h]

theorem optionHeads_cons {c : Cursor} {l : Lexeme} {ls : List Lexeme} (h : c.rest = l :: ls) :
    c.optionHeads = l :: (c.afterOption?.map optionHeads).getD [] := by
  rw [optionHeads, h]
  dsimp only
  split
  · rename_i stuck
    rw [stuck]
    rfl
  · rename_i passed
    rw [passed]
    rfl

end Cursor

/-- The options that lexemes are read as: the lexemes that the options start with, and the names
    that they have. -/
inductive OptionRun (column : String) : List Lexeme → List Lexeme → OptionNames → Prop where
  | done : OptionRun column [] [] {}
  | ended {l : Lexeme} (role : l.role? = some .reference) (rest : List Lexeme) :
      OptionRun column (l :: rest) [l] {}
  | step {l : Lexeme} {ls rest heads : List Lexeme} {names : OptionNames}
      (option : IsOption (opensGroup rest) l ls) (run : OptionRun column rest heads names) :
      OptionRun column (l :: (ls ++ rest)) (l :: heads) (l.addTo column names)

namespace OptionRun

variable {column : String}

/-- Options that are read have a run. -/
theorem exists_of_optionNames? {c : Cursor} {names : OptionNames}
    (h : c.optionNames? column = some names) : ∃ heads, OptionRun column c.rest heads names := by
  induction length : c.rest.length using Nat.strongRecOn generalizing c names with
  | ind n ih =>
      cases rest : c.rest with
      | nil =>
          rw [Cursor.optionNames?, Cursor.columnTail_nil column rest] at h
          cases h
          exact ⟨[], .done⟩
      | cons l ls =>
          rw [Cursor.optionNames?_cons column rest] at h
          split at h
          · rename_i role
            cases h
            exact ⟨[l], .ended role ls⟩
          · obtain ⟨after, passed, read⟩ := Option.bind_eq_some_iff.mp h
            obtain ⟨later, found, rfl⟩ := Option.map_eq_some_iff.mp read
            have shorter := Cursor.length_lt_of_afterOption? passed
            obtain ⟨heads, run⟩ := ih _ (length ▸ shorter) found rfl
            obtain ⟨l', taken, option, split⟩ := Cursor.exists_isOption passed
            obtain ⟨rfl, rfl⟩ := List.cons.inj (rest.symm.trans split)
            exact ⟨l :: heads, .step option run⟩

theorem role?_ne_reference {opened : Bool} {l : Lexeme} {ls : List Lexeme}
    (h : IsOption opened l ls) : l.role? ≠ some .reference := by
  intro role
  cases h with
  | bare bare => simp [role, OptionRole.isBare] at bare
  | valued valued => simp [role, OptionRole.isValued] at valued
  | check check => simp [role] at check
  | unchecked check => simp [role] at check

/-- A run tells what is read, and where the options start. -/
theorem read {ls heads : List Lexeme} {names : OptionNames} (h : OptionRun column ls heads names)
    (stop : Nat) :
    Cursor.optionNames? column ⟨ls, stop⟩ = some names ∧
      Cursor.optionHeads ⟨ls, stop⟩ = heads := by
  induction h with
  | done =>
      rw [Cursor.optionNames?, Cursor.columnTail_nil column rfl]
      exact ⟨rfl, Cursor.optionHeads_nil rfl⟩
  | @ended l role rest =>
      have stuck : Cursor.afterOption? ⟨l :: rest, stop⟩ = none := by
        simp [Cursor.afterOption?, Cursor.behindWord?, role, OptionRole.isBare, OptionRole.isValued]
      rw [Cursor.optionNames?_cons column rfl, if_pos role, Cursor.optionHeads_cons rfl, stuck]
      exact ⟨rfl, rfl⟩
  | @step l ls rest heads names option _ ih =>
      obtain ⟨later, starts⟩ := ih
      rw [Cursor.optionNames?_cons column rfl, if_neg (role?_ne_reference option),
        Cursor.optionHeads_cons rfl, Cursor.afterOption?_of_isOption option, Option.bind_some, later]
      exact ⟨rfl, congrArg (l :: ·) starts⟩

end OptionRun

end TableShift
