import TableShift.Proofs.ColumnReading
import TableShift.Proofs.Isolation
import TableShift.Proofs.KeyReading

/-! # Where tables are named

A table is named behind the first words of a statement, in the list of dropped tables, and
as the target of a reference. Wherever the reader of names meets the name, an identifier
and a point in front of it are passed over: the statement is the same.
-/

namespace TableShift

open Lexeme

/-- An identifier and a point, as they stand in front of a name. -/
structure Qualifier where
  schema : String
  head : Lexeme
  dot : Lexeme
  spelled : head.token = .identifier schema
  dotted : dot.token = .punct '.'

namespace Qualifier

variable (q : Qualifier)

def lexemes : List Lexeme :=
  [q.head, q.dot]

theorem name?_head : q.head.name? = some q.schema := by
  simp [Lexeme.name?, q.spelled]

theorem flat_head : q.head.Flat :=
  flat_of_name? q.name?_head

theorem flat_dot : q.dot.Flat := by
  simp [Flat, q.dotted, Token.isPunct]

theorem name_append (rest : List Lexeme) (stop : Nat) :
    Cursor.name ⟨q.lexemes ++ rest, stop⟩ = Cursor.name ⟨rest, stop⟩ := by
  have read : Cursor.nameFrom stop (q.head :: q.dot :: rest) = Cursor.nameFrom stop rest := by
    rw [Cursor.nameFrom, q.name?_head, q.dotted]
    rfl
  simp only [Cursor.name, lexemes, List.cons_append, List.nil_append, read]

theorem splitClose_append (depth : Nat) (rest : List Lexeme) :
    Cursor.splitClose depth (q.lexemes ++ rest) =
      (Cursor.splitClose depth rest).map fun split => (q.lexemes ++ split.1, split.2) := by
  have balanced : Balanced q.lexemes := .flat q.flat_head (.flat q.flat_dot .nil)
  exact Cursor.splitClose_balanced balanced depth rest

theorem splitCommas_append (depth : Nat) (rest : List Lexeme) :
    splitCommas depth (q.lexemes ++ rest) = joinFirst q.lexemes (splitCommas depth rest) := by
  have head : q.head.token.isPunct ',' = false := by simp [q.spelled, Token.isPunct]
  have dot : q.dot.token.isPunct ',' = false := by simp [q.dotted, Token.isPunct]
  simp only [lexemes, List.cons_append, List.nil_append]
  rw [splitCommas_cons (by simp [head]), depthAfter_flat q.flat_head,
    splitCommas_cons (by simp [dot]), depthAfter_flat q.flat_dot, joinFirst_joinFirst]
  rfl

end Qualifier

/-! ## Names -/

theorem Token.isPunct_iff {mark : Char} {token : Token} :
    token.isPunct mark = true ↔ token = .punct mark := by
  cases token <;> simp [isPunct]

/-- The lexemes of a name and of the qualifiers in front of it. -/
inductive Lexeme.Denotes (name : String) : List Lexeme → Prop where
  | last {l : Lexeme} (named : l.name? = some name) : Denotes name [l]
  | qualified {l dot : Lexeme} {schema : String} {ls : List Lexeme}
      (named : l.name? = some schema) (dotted : dot.token = .punct '.') (rest : Denotes name ls) :
      Denotes name (l :: dot :: ls)

theorem Lexeme.Denotes.exists_cons {name : String} {ls : List Lexeme} (h : Denotes name ls) :
    ∃ first ls', ls = first :: ls' ∧ first.name?.isSome = true := by
  cases h with
  | last named => exact ⟨_, _, rfl, by simp [named]⟩
  | qualified named => exact ⟨_, _, rfl, by simp [named]⟩

theorem Cursor.name_denoted {name : String} {ls : List Lexeme} (h : Denotes name ls)
    {rest : List Lexeme} {stop : Nat} (ended : atPunct ⟨rest, stop⟩ '.' = false) :
    Cursor.name ⟨ls ++ rest, stop⟩ = .ok (name, ⟨rest, stop⟩) := by
  have read : nameFrom stop (ls ++ rest) = .ok (name, rest) := by
    induction h with
    | last named =>
        cases rest with
        | nil => simp [nameFrom, named]
        | cons dot rest =>
            have undotted : dot.token.isPunct '.' = false := by simpa [atPunct] using ended
            simp [nameFrom, named, undotted]
    | qualified named dotted _ ih =>
        simp only [List.cons_append, nameFrom, named, dotted]
        exact ih
  simp [Cursor.name, read]

theorem Lexeme.flat_of_denoted {name : String} {ls : List Lexeme} (h : Denotes name ls) :
    ∀ l ∈ ls, l.Flat := by
  induction h with
  | last named => simpa using flat_of_name? named
  | qualified named dotted _ ih =>
      simp only [List.forall_mem_cons]
      exact ⟨flat_of_name? named, by simp [Flat, dotted, Token.isPunct], ih⟩

theorem Cursor.exists_denotes_of_name {c after : Cursor} {name : String}
    (h : c.name = .ok (name, after)) :
    ∃ named, Denotes name named ∧ c.rest = named ++ after.rest ∧
      atPunct ⟨after.rest, 0⟩ '.' = false := by
  have split (stop : Nat) (ls rest : List Lexeme) (read : Cursor.nameFrom stop ls = .ok (name, rest)) :
      ∃ named, Denotes name named ∧ ls = named ++ rest ∧ atPunct ⟨rest, 0⟩ '.' = false := by
    fun_induction nameFrom stop ls with
    | case1 | case3 | case6 => simp at read
    | case2 l _ named =>
        cases read
        exact ⟨[l], .last named, rfl, rfl⟩
    | case4 l dot ls schema named dotted ih =>
        obtain ⟨later, denoted, rfl, ended⟩ := ih read
        exact ⟨l :: dot :: later, .qualified named (Token.isPunct_iff.mp dotted) denoted, rfl, ended⟩
    | case5 l dot ls _ named undotted =>
        cases read
        exact ⟨[l], .last named, rfl, by simpa [atPunct] using undotted⟩
  unfold Cursor.name at h
  split at h
  · rename_i read
    cases h
    exact split _ _ _ read
  · simp at h

/-! ## First words -/

/-- The words that a statement about tables starts with: a verb, another word or not, and
    `TABLE`. -/
inductive Lexeme.Opens (verb word : String) : List Lexeme → Prop where
  | bare {v table : Lexeme} (first : v.token = .keyword verb)
      (last : table.token = .keyword "TABLE") : Opens verb word [v, table]
  | worded {v w table : Lexeme} (first : v.token = .keyword verb) (second : w.token = .keyword word)
      (last : table.token = .keyword "TABLE") : Opens verb word [v, w, table]

/-- A word that may stand before other lexemes, and does not stand at their head. -/
inductive Lexeme.Guards (word : String) : List Lexeme → List Lexeme → Prop where
  | absent {rest : List Lexeme} (free : Cursor.atKeyword ⟨rest, 0⟩ word = false) :
      Guards word [] rest
  | present {l : Lexeme} (spelled : l.token = .keyword word) (rest : List Lexeme) :
      Guards word [l] rest

theorem Lexeme.Guards.skipKeyword {word : String} {guard rest : List Lexeme}
    (h : Guards word guard rest) (stop : Nat) :
    Cursor.skipKeyword ⟨guard ++ rest, stop⟩ word = ⟨rest, stop⟩ := by
  cases h with
  | absent free =>
      have free : Cursor.atKeyword ⟨rest, stop⟩ word = false := free
      simp [Cursor.skipKeyword, free]
  | present spelled =>
      simp [Cursor.skipKeyword, Cursor.atKeyword, spelled, Token.isKeyword, Cursor.next]

theorem Lexeme.Guards.qualified {word : String} {guard rest : List Lexeme}
    (h : Guards word guard rest) (q : Qualifier) : Guards word guard (q.lexemes ++ rest) := by
  cases h with
  | absent =>
      exact .absent (by simp [Cursor.atKeyword, Qualifier.lexemes, q.spelled, Token.isKeyword])
  | present spelled => exact .present spelled _

namespace Cursor

variable {head : List Lexeme}

theorem statement_create (h : Opens "CREATE" "TEMPORARY" head) (rest : List Lexeme) (stop : Nat) :
    statement ⟨head ++ rest, stop⟩ =
      (createTable ⟨rest, stop⟩).map fun s => some (.create s) := by
  cases h with
  | bare first last =>
      simp [statement, atKeyword, skipKeyword, next, first, last, Token.isKeyword]
  | worded first second last =>
      simp [statement, atKeyword, skipKeyword, next, first, second, last, Token.isKeyword]

theorem statement_alter (h : Opens "ALTER" "IGNORE" head) (rest : List Lexeme) (stop : Nat) :
    statement ⟨head ++ rest, stop⟩ = (alterTable ⟨rest, stop⟩).map fun s => some (.alter s) := by
  cases h with
  | bare first last =>
      simp [statement, atKeyword, skipKeyword, next, first, last, Token.isKeyword]
  | worded first second last =>
      simp [statement, atKeyword, skipKeyword, next, first, second, last, Token.isKeyword]

theorem statement_drop (h : Opens "DROP" "TEMPORARY" head) (rest : List Lexeme) (stop : Nat) :
    statement ⟨head ++ rest, stop⟩ = (dropTable ⟨rest, stop⟩).map fun s => some (.drop s) := by
  cases h with
  | bare first last =>
      simp [statement, atKeyword, skipKeyword, next, first, last, Token.isKeyword]
  | worded first second last =>
      simp [statement, atKeyword, skipKeyword, next, first, second, last, Token.isKeyword]

end Cursor

/-! ## Dropped tables -/

/-- Names with a comma behind each. -/
inductive Lexeme.Listed : List Lexeme → Prop where
  | nil : Listed []
  | cons {name : String} {ls more : List Lexeme} {comma : Lexeme} (named : Denotes name ls)
      (mark : comma.token = .punct ',') (rest : Listed more) : Listed (ls ++ comma :: more)

theorem Lexeme.Listed.tableNames {listed : List Lexeme} (h : Listed listed) (stop : Nat) :
    ∃ names, ∀ rest, Cursor.tableNames ⟨listed ++ rest, stop⟩ =
      (Cursor.tableNames ⟨rest, stop⟩).map (names ++ ·) := by
  induction h with
  | nil =>
      refine ⟨[], fun rest => ?_⟩
      cases read : Cursor.tableNames ⟨rest, stop⟩ <;> simp [read, Except.map]
  | @cons name ls more comma named mark _ ih =>
      obtain ⟨names, read⟩ := ih
      refine ⟨name :: names, fun rest => ?_⟩
      have separated : Cursor.atPunct ⟨comma :: (more ++ rest), stop⟩ ',' = true := by
        simp [Cursor.atPunct, mark, Token.isPunct]
      have first : Cursor.name ⟨ls ++ comma :: (more ++ rest), stop⟩ =
          .ok (name, ⟨comma :: (more ++ rest), stop⟩) :=
        Cursor.name_denoted named (by simp [Cursor.atPunct, mark, Token.isPunct])
      rw [List.append_assoc, List.cons_append, Cursor.tableNames_eq, first]
      simp only [bind, Except.bind, separated, if_true, Cursor.next, List.tail_cons, read rest]
      cases Cursor.tableNames ⟨rest, stop⟩ <;> rfl

theorem Qualifier.tableNames_append (q : Qualifier) (rest : List Lexeme) (stop : Nat) :
    Cursor.tableNames ⟨q.lexemes ++ rest, stop⟩ = Cursor.tableNames ⟨rest, stop⟩ := by
  rw [Cursor.tableNames_eq, Cursor.tableNames_eq, q.name_append]

/-! ## Lexemes on both sides of a place -/

/-- The parts of two lists that are put together: the last part of the first and the first
    part of the second become one. -/
def Lexeme.meet : List (List Lexeme) → List (List Lexeme) → List (List Lexeme)
  | [], parts => parts
  | [part], parts => joinFirst part parts
  | part :: earlier, parts => part :: meet earlier parts

namespace Lexeme

theorem opens_or_closes_or_flat (l : Lexeme) :
    l.token = .punct '(' ∨ l.token = .punct ')' ∨ l.Flat := by
  by_cases opens : l.token.isPunct '(' = true
  · exact .inl (Token.isPunct_iff.mp opens)
  · by_cases closes : l.token.isPunct ')' = true
    · exact .inr (.inl (Token.isPunct_iff.mp closes))
    · exact .inr (.inr ⟨Bool.eq_false_iff.mpr opens, Bool.eq_false_iff.mpr closes⟩)

theorem meet_cons {part : List Lexeme} {earlier : List (List Lexeme)} (h : earlier ≠ [])
    (parts : List (List Lexeme)) : meet (part :: earlier) parts = part :: meet earlier parts := by
  cases earlier with
  | nil => exact absurd rfl h
  | cons => rfl

theorem meet_joinFirst {earlier : List (List Lexeme)} (h : earlier ≠ []) (ls : List Lexeme)
    (parts : List (List Lexeme)) :
    meet (joinFirst ls earlier) parts = joinFirst ls (meet earlier parts) := by
  match earlier with
  | [] => exact absurd rfl h
  | [part] => exact (joinFirst_joinFirst ls part parts).symm
  | part :: next :: earlier => rfl

theorem meet_append_singleton (earlier : List (List Lexeme)) (front first : List Lexeme)
    (later : List (List Lexeme)) :
    meet (earlier ++ [front]) (first :: later) = earlier ++ (front ++ first) :: later := by
  induction earlier with
  | nil => rfl
  | cons part earlier ih =>
      rw [List.cons_append, meet_cons (by simp), ih, List.cons_append]

/-- A comma outside parentheses separates parts on either side of a place. -/
theorem splitCommas_append (depth : Nat) (xs ys : List Lexeme) :
    splitCommas depth (xs ++ ys) =
      meet (splitCommas depth xs) (splitCommas (xs.foldl depthAfter depth) ys) := by
  induction xs generalizing depth with
  | nil => exact (joinFirst_nil depth ys).symm
  | cons l xs ih =>
      cases cut : l.token.isPunct ',' && depth == 0 with
      | true =>
          have comma : l.token = .punct ',' := by
            rw [Bool.and_eq_true] at cut
            exact Token.isPunct_iff.mp cut.1
          have flat : l.Flat := by simp [Flat, comma, Token.isPunct]
          simp only [List.cons_append, splitCommas, cut, if_true, List.foldl_cons, ih,
            depthAfter_flat flat, meet_cons (splitCommas_ne_nil _ _)]
      | false =>
          rw [List.cons_append, splitCommas_cons cut, splitCommas_cons cut, ih, List.foldl_cons,
            meet_joinFirst (splitCommas_ne_nil _ _)]

theorem exists_head_splitCommas {l : Lexeme} {name : String} (named : l.name? = some name)
    (depth : Nat) (ls : List Lexeme) :
    ∃ back, (splitCommas depth (l :: ls)).head? = some (l :: back) := by
  have uncut : l.token.isPunct ',' = false := by
    cases token : l.token with
    | punct mark => simp [name?, token] at named
    | keyword | identifier | literal => rfl
  obtain ⟨part, parts, split⟩ := List.exists_cons_of_ne_nil
    (splitCommas_ne_nil (depthAfter depth l) ls)
  refine ⟨part, ?_⟩
  rw [splitCommas_cons (by simp [uncut]), split]
  rfl

end Lexeme

namespace Cursor

theorem splitClose_of_open {depth : Nat} {ls : List Lexeme} (h : splitClose depth ls = none)
    (rest : List Lexeme) :
    splitClose depth (ls ++ rest) =
      (splitClose (ls.foldl depthAfter depth) rest).map fun split => (ls ++ split.1, split.2) := by
  induction ls generalizing depth with
  | nil => simp
  | cons l ls ih =>
      rcases l.opens_or_closes_or_flat with opens | closes | flat
      · rw [splitClose_open _ _ opens, Option.map_eq_none_iff] at h
        rw [List.cons_append, splitClose_open _ _ opens, ih h, List.foldl_cons,
          depthAfter_open opens, Option.map_map]
        rfl
      · cases depth with
        | zero => simp [splitClose_end _ closes] at h
        | succ depth =>
            rw [splitClose_close _ _ closes, Option.map_eq_none_iff] at h
            rw [List.cons_append, splitClose_close _ _ closes, ih h, List.foldl_cons,
              depthAfter_close closes, Option.map_map]
            rfl
      · rw [splitClose_flat _ _ flat, Option.map_eq_none_iff] at h
        rw [List.cons_append, splitClose_flat _ _ flat, ih h, List.foldl_cons,
          depthAfter_flat flat, Option.map_map]
        rfl

/-- At a place outside all groups the groups before it are closed. -/
theorem exists_splitClose (depth : Nat) {outer : Nat} {ls : List Lexeme}
    (h : ls.foldl depthAfter (outer + depth + 1) = 0) :
    ∃ inside after, (∀ rest, splitClose depth (ls ++ rest) = some (inside, after ++ rest)) ∧
      after.foldl depthAfter outer = 0 ∧ after <:+ ls := by
  induction ls generalizing depth with
  | nil => simp at h
  | cons l ls ih =>
      rw [List.foldl_cons] at h
      rcases l.opens_or_closes_or_flat with opens | closes | flat
      · rw [depthAfter_open opens] at h
        obtain ⟨inside, after, split, closed, ends⟩ := ih (depth + 1) h
        refine ⟨l :: inside, after, ?_, closed, ends.trans (List.suffix_cons l ls)⟩
        intro rest
        rw [List.cons_append, splitClose_open _ _ opens, split]
        rfl
      · rw [depthAfter_close closes] at h
        cases depth with
        | zero =>
            refine ⟨[], ls, ?_, h, List.suffix_cons l ls⟩
            intro rest
            exact splitClose_end _ closes
        | succ depth =>
            obtain ⟨inside, after, split, closed, ends⟩ := ih depth h
            refine ⟨l :: inside, after, ?_, closed, ends.trans (List.suffix_cons l ls)⟩
            intro rest
            rw [List.cons_append, splitClose_close _ _ closes, split]
            rfl
      · rw [depthAfter_flat flat] at h
        obtain ⟨inside, after, split, closed, ends⟩ := ih depth h
        refine ⟨l :: inside, after, ?_, closed, ends.trans (List.suffix_cons l ls)⟩
        intro rest
        rw [List.cons_append, splitClose_flat _ _ flat, split]
        rfl

theorem exists_group {outer : Nat} {opening : Lexeme} {ls : List Lexeme}
    (opens : opening.token = .punct '(')
    (h : (opening :: ls).foldl depthAfter outer = 0) :
    ∃ inside after, (∀ rest stop, group ⟨opening :: (ls ++ rest), stop⟩ =
      .ok (inside, ⟨after ++ rest, stop⟩)) ∧
        after.foldl depthAfter outer = 0 ∧ after <:+ ls := by
  rw [List.foldl_cons, depthAfter_open opens] at h
  obtain ⟨inside, after, split, closed, ends⟩ := exists_splitClose 0 h
  refine ⟨inside, after, ?_, closed, ends⟩
  intro rest stop
  simp [group, atPunct, opens, Token.isPunct, split]

/-! ## Values in front of a lexeme -/

theorem exists_of_opensGroup {ls : List Lexeme} (h : opensGroup ls = true) :
    ∃ opening inner, ls = opening :: inner ∧ opening.token = .punct '(' := by
  cases ls with
  | nil => simp [opensGroup] at h
  | cons opening inner => exact ⟨opening, inner, rfl, Token.isPunct_iff.mp h⟩

theorem opensGroup_append_cons {l : Lexeme} (closed : l.token.isPunct '(' = false)
    {ls : List Lexeme} (h : opensGroup ls = false) (rest : List Lexeme) :
    opensGroup (ls ++ l :: rest) = false := by
  cases ls with
  | nil => simp [opensGroup, closed]
  | cons => exact h

section Bound

variable {bound : Lexeme} (closed : bound.token.isPunct '(' = false)
include closed

theorem exists_wordValue {outer : Nat} {value : Lexeme} {ls : List Lexeme}
    (h : ls.foldl depthAfter outer = 0) {stop : Nat}
    (word : ∀ rest, optionValue ⟨value :: rest, stop⟩ =
      if atPunct ⟨rest, stop⟩ '(' then
        (group ⟨rest, stop⟩).map fun read =>
          (.expr (value.raw ++ "(" ++ expressionText read.1 ++ ")"), read.2)
      else .ok (.expr value.raw, ⟨rest, stop⟩)) :
    ∃ read : Except SyntaxError (Value × List Lexeme),
      (∀ rest, optionValue ⟨value :: (ls ++ bound :: rest), stop⟩ =
        read.map fun found => (found.1, ⟨found.2 ++ bound :: rest, stop⟩)) ∧
      ∀ found, read = .ok found → found.2 <:+ ls ∧
        ∃ outer, found.2.foldl depthAfter outer = 0 := by
  cases called : opensGroup ls with
  | true =>
      obtain ⟨opening, inner, rfl, opens⟩ := exists_of_opensGroup called
      obtain ⟨inside, left, group, balanced, ends⟩ := exists_group opens h
      refine ⟨.ok (.expr (value.raw ++ "(" ++ expressionText inside ++ ")"), left), ?_, ?_⟩
      · intro rest
        have opened : atPunct ⟨opening :: (inner ++ bound :: rest), stop⟩ '(' = true :=
          Token.isPunct_iff.mpr opens
        rw [word, List.cons_append, opened, if_pos rfl, group]
        rfl
      · rintro _ ⟨⟩
        exact ⟨ends.trans (List.suffix_cons opening inner), outer, balanced⟩
  | false =>
      refine ⟨.ok (.expr value.raw, ls), ?_, ?_⟩
      · intro rest
        have unopened : atPunct ⟨ls ++ bound :: rest, stop⟩ '(' = false :=
          opensGroup_append_cons closed called rest
        rw [word, unopened]
        rfl
      · rintro _ ⟨⟩
        exact ⟨List.suffix_refl _, outer, h⟩

theorem exists_optionValue {outer : Nat} {value : Lexeme} {ls : List Lexeme}
    (h : (value :: ls).foldl depthAfter outer = 0) (stop : Nat) :
    ∃ read : Except SyntaxError (Value × List Lexeme),
      (∀ rest, optionValue ⟨value :: (ls ++ bound :: rest), stop⟩ =
        read.map fun found => (found.1, ⟨found.2 ++ bound :: rest, stop⟩)) ∧
      ∀ found, read = .ok found → found.2 <:+ ls ∧
        ∃ outer, found.2.foldl depthAfter outer = 0 := by
  have after : ls.foldl depthAfter (depthAfter outer value) = 0 := h
  cases token : value.token with
  | punct mark =>
      by_cases opens : mark = '('
      · subst opens
        obtain ⟨inside, left, group, balanced, ends⟩ := exists_group token h
        refine ⟨.ok (.expr ("(" ++ expressionText inside ++ ")"), left), ?_, ?_⟩
        · intro rest
          simp [optionValue, token, group, Except.map]
        · rintro _ ⟨⟩
          exact ⟨ends, outer, balanced⟩
      · refine ⟨.error ⟨value.start, .unexpectedPunctuation mark⟩, ?_, ?_⟩
        · intro rest
          simp [optionValue, token, opens, complain, position, Except.map]
        · rintro _ ⟨⟩
  | literal text =>
      refine ⟨.ok (text, ls), ?_, ?_⟩
      · intro rest
        simp [optionValue, token, next, Except.map]
      · rintro _ ⟨⟩
        exact ⟨List.suffix_refl _, _, after⟩
  | keyword word =>
      by_cases null : word = "NULL"
      · refine ⟨.ok (.null, ls), ?_, ?_⟩
        · intro rest
          simp [optionValue, token, null, Token.isKeyword, next, Except.map]
        · rintro _ ⟨⟩
          exact ⟨List.suffix_refl _, _, after⟩
      · apply exists_wordValue closed after
        intro rest
        simp only [optionValue, token, Token.isKeyword, null, beq_iff_eq, if_false, next,
          List.tail_cons]
        cases group ⟨rest, stop⟩ <;> rfl
  | identifier name =>
      apply exists_wordValue closed after
      intro rest
      simp only [optionValue, token, Token.isKeyword, Bool.false_eq_true, if_false, next,
        List.tail_cons]
      cases group ⟨rest, stop⟩ <;> rfl

end Bound

/-! ## References in a new table -/

section Reference

variable {reference : Lexeme} (spelled : reference.token = .keyword "REFERENCES")
include spelled

variable {column : String} {xs ys : List Lexeme} {stop : Nat}

section Later

-- What stands between an option and the reference is read in the same way.
variable {ls : List Lexeme}
  (later : ∀ {left : List Lexeme} {outer : Nat}, left.length ≤ ls.length →
    left.foldl depthAfter outer = 0 →
      columnTail column ⟨left ++ reference :: xs, stop⟩ =
        columnTail column ⟨left ++ reference :: ys, stop⟩)
include later

theorem value_reference (closed : opensGroup xs = false) (closed' : opensGroup ys = false)
    (same : columnTail column ⟨xs, stop⟩ = columnTail column ⟨ys, stop⟩) {outer : Nat}
    (h : ls.foldl depthAfter outer = 0) (put : Value → ColumnTail → ColumnTail) :
    (optionValue ⟨ls ++ reference :: xs, stop⟩ >>= fun read =>
        (columnTail column read.2).map (put read.1)) =
      (optionValue ⟨ls ++ reference :: ys, stop⟩ >>= fun read =>
        (columnTail column read.2).map (put read.1)) := by
  cases ls with
  | nil =>
      have visible : ∀ mark, reference.token ≠ .punct mark := by simp [spelled]
      rw [List.nil_append, List.nil_append, optionValue_plain visible closed,
        optionValue_plain visible closed']
      exact congrArg (Except.map _) same
  | cons first ls =>
      have bare : reference.token.isPunct '(' = false := by simp [spelled, Token.isPunct]
      obtain ⟨read, value, left⟩ := exists_optionValue bare h stop
      rw [List.cons_append, List.cons_append, value, value]
      cases read with
      | error e => rfl
      | ok found =>
          obtain ⟨ends, outer, closed⟩ := left found rfl
          exact congrArg (Except.map _) (later (Nat.le_succ_of_le ends.length_le) closed)

theorem check_reference {outer : Nat} (h : ls.foldl depthAfter outer = 0) :
    (if atPunct ⟨ls ++ reference :: xs, stop⟩ '(' then
        group ⟨ls ++ reference :: xs, stop⟩ >>= fun read => columnTail column read.2
      else columnTail column ⟨ls ++ reference :: xs, stop⟩) =
      if atPunct ⟨ls ++ reference :: ys, stop⟩ '(' then
        group ⟨ls ++ reference :: ys, stop⟩ >>= fun read => columnTail column read.2
      else columnTail column ⟨ls ++ reference :: ys, stop⟩ := by
  have bare : reference.token.isPunct '(' = false := by simp [spelled, Token.isPunct]
  cases called : opensGroup ls with
  | true =>
      obtain ⟨opening, inner, rfl, opens⟩ := exists_of_opensGroup called
      obtain ⟨inside, left, group, closed, ends⟩ := exists_group opens h
      have opened (rest : List Lexeme) :
          atPunct ⟨opening :: (inner ++ reference :: rest), stop⟩ '(' = true :=
        Token.isPunct_iff.mpr opens
      simp only [List.cons_append, opened, if_true, group]
      exact later (Nat.le_succ_of_le ends.length_le) closed
  | false =>
      have unopened (rest : List Lexeme) :
          atPunct ⟨ls ++ reference :: rest, stop⟩ '(' = false :=
        opensGroup_append_cons bare called rest
      rw [unopened, unopened]
      exact later (Nat.le_refl _) h

end Later

theorem columnTail_reference (column : String) (closed : opensGroup xs = false)
    (closed' : opensGroup ys = false)
    (same : columnTail column ⟨xs, stop⟩ = columnTail column ⟨ys, stop⟩) {outer : Nat}
    {ls : List Lexeme} (h : ls.foldl depthAfter outer = 0) :
    columnTail column ⟨ls ++ reference :: xs, stop⟩ =
      columnTail column ⟨ls ++ reference :: ys, stop⟩ := by
  -- Along the lexemes before the reference, an option at a time.
  induction size : ls.length using Nat.strongRecOn generalizing ls outer with
  | ind _ ih =>
  cases ls with
  | nil =>
      have ended (rest : List Lexeme) : columnTail column ⟨reference :: rest, stop⟩ = .ok {} := by
        rw [columnTail_cons column rfl]
        simp [spelled, Token.keyword?, OptionRole.ofKeyword]
      rw [List.nil_append, List.nil_append, ended, ended]
  | cons l ls =>
      have after : ls.foldl depthAfter (depthAfter outer l) = 0 := h
      have later {left : List Lexeme} {outer : Nat} (shorter : left.length ≤ ls.length)
          (closed : left.foldl depthAfter outer = 0) :
          columnTail column ⟨left ++ reference :: xs, stop⟩ =
            columnTail column ⟨left ++ reference :: ys, stop⟩ :=
        ih _ (size ▸ Nat.lt_succ_of_le shorter) closed rfl
      have skipped := later (Nat.le_refl _) after
      have value := value_reference spelled later closed closed' same after
      have step (rest : List Lexeme) := columnTail_cons column
        (show Cursor.rest ⟨l :: (ls ++ reference :: rest), stop⟩ = l :: (ls ++ reference :: rest) from rfl)
      rw [List.cons_append, List.cons_append, step xs, step ys]
      simp only [next, List.tail_cons]
      cases l.token.keyword? with
      | none => exact skipped
      | some word =>
          dsimp only
          cases OptionRole.ofKeyword word with
          | typeFlag | key kind | flag => exact congrArg (Except.map _) skipped
          | reference => rfl
          | typeValue => exact value fun read => .consType (.keyValue word read)
          | value => exact value fun read => .consOption (.keyValue word read)
          | check => exact check_reference spelled later after

end Reference

end Cursor

/-- What stands in a column definition before the target of a reference. -/
structure ColumnHead where
  column : String
  name : List Lexeme
  named : Denotes column name
  /-- The type and the options before the reference. -/
  middle : List Lexeme
  ended : Cursor.atPunct ⟨middle, 0⟩ '.' = false
  closed : middle.foldl depthAfter 0 = 0
  reference : Lexeme
  spelled : reference.token = .keyword "REFERENCES"

namespace ColumnHead

def lexemes (h : ColumnHead) : List Lexeme :=
  h.name ++ (h.middle ++ [h.reference])

theorem name_append (h : ColumnHead) (rest : List Lexeme) (stop : Nat) :
    Cursor.name ⟨h.lexemes ++ rest, stop⟩ =
      .ok (h.column, ⟨h.middle ++ h.reference :: rest, stop⟩) := by
  have ended : Cursor.atPunct ⟨h.middle ++ h.reference :: rest, stop⟩ '.' = false := by
    have last : h.reference.token.isPunct '.' = false := by simp [h.spelled, Token.isPunct]
    have ended := h.ended
    cases middle : h.middle with
    | nil => simp [Cursor.atPunct, last]
    | cons l ls => simpa [Cursor.atPunct, middle] using ended
  simpa [lexemes] using Cursor.name_denoted h.named ended

theorem column_append (h : ColumnHead) {xs ys : List Lexeme} {stop : Nat}
    (closed : opensGroup xs = false) (closed' : opensGroup ys = false)
    (same : Cursor.columnTail h.column ⟨xs, stop⟩ = Cursor.columnTail h.column ⟨ys, stop⟩) :
    Cursor.column ⟨h.lexemes ++ xs, stop⟩ = Cursor.column ⟨h.lexemes ++ ys, stop⟩ := by
  simp only [Cursor.column, h.name_append, bind, Except.bind]
  have reference := h.spelled
  have bare : h.reference.token.isPunct '(' = false := by simp [reference, Token.isPunct]
  have middle := h.closed
  cases given : h.middle with
  | nil =>
      have plain : Cursor.atPunct ⟨xs, stop⟩ '(' = false := closed
      have plain' : Cursor.atPunct ⟨ys, stop⟩ '(' = false := closed'
      simp [Cursor.typeName?, reference, Cursor.next, Cursor.typeParameters, plain, plain', same]
  | cons type middle' =>
      rw [given, List.foldl_cons] at middle
      have tail {outer : Nat} {ls : List Lexeme} (h : ls.foldl depthAfter outer = 0) :=
        Cursor.columnTail_reference reference _ closed closed' same h
      cases called : opensGroup middle' with
      | true =>
          obtain ⟨opening, inner, rfl, opens⟩ := Cursor.exists_of_opensGroup called
          obtain ⟨inside, left, group, closed, _⟩ := Cursor.exists_group opens middle
          have opened (rest : List Lexeme) :
              Cursor.atPunct ⟨opening :: (inner ++ h.reference :: rest), stop⟩ '(' = true :=
            Token.isPunct_iff.mpr opens
          simp only [List.cons_append, Cursor.typeName?, Cursor.next, List.tail_cons,
            Cursor.typeParameters, opened, if_true, group, tail closed]
          rfl
      | false =>
          have unopened (rest : List Lexeme) :
              Cursor.atPunct ⟨middle' ++ h.reference :: rest, stop⟩ '(' = false :=
            Cursor.opensGroup_append_cons bare called rest
          simp only [List.cons_append, Cursor.typeName?, Cursor.next, List.tail_cons,
            Cursor.typeParameters, unopened, Bool.false_eq_true, if_false, tail middle]
          rfl

end ColumnHead

/-- The lexemes that name a constraint, if any stand before a key. -/
inductive Lexeme.Constrains : Option String → List Lexeme → Prop where
  | absent : Constrains none []
  | bare {l : Lexeme} (spelled : l.token = .keyword "CONSTRAINT") : Constrains none [l]
  | named {l : Lexeme} {name : String} {ls : List Lexeme} (spelled : l.token = .keyword "CONSTRAINT")
      (named : Denotes name ls) (unkeyed : Cursor.atAnyKeyword ⟨ls, 0⟩ keyClauseWords = false) :
      Constrains (some name) (l :: ls)

/-- What stands in a foreign key before the table it refers to. -/
structure ForeignKeyHead where
  constraint : Option String
  symbol : List Lexeme
  constrained : Constrains constraint symbol
  head : Lexeme
  spelled : head.token = .keyword "FOREIGN KEY"
  keyName : List Lexeme
  named : keyName = [] ∨ ∃ name, Denotes name keyName
  opening : Lexeme
  opens : opening.token = .punct '('
  columns : List Lexeme
  balanced : Balanced columns
  closing : Lexeme
  closes : closing.token = .punct ')'
  reference : Lexeme
  refers : reference.token = .keyword "REFERENCES"

namespace ForeignKeyHead

/-- The key's columns, in parentheses, with the name before them. -/
def group (h : ForeignKeyHead) : List Lexeme :=
  h.keyName ++ h.opening :: (h.columns ++ [h.closing])

def lexemes (h : ForeignKeyHead) : List Lexeme :=
  h.symbol ++ h.head :: (h.group ++ [h.reference])

theorem exists_keyName (h : ForeignKeyHead) (stop : Nat) :
    ∃ name, ∀ rest, Cursor.keyName ⟨h.group ++ rest, stop⟩ =
      .ok (name, ⟨h.opening :: (h.columns ++ h.closing :: rest), stop⟩) := by
  have opened (rest : List Lexeme) (mark : Char) :
      Cursor.atPunct ⟨h.opening :: rest, stop⟩ mark = ('(' == mark) := by
    simp [Cursor.atPunct, h.opens, Token.isPunct]
  rcases h.named with unnamed | ⟨name, denoted⟩
  · refine ⟨none, fun rest => ?_⟩
    simp [Cursor.keyName, group, unnamed, opened]
  · refine ⟨some name, fun rest => ?_⟩
    have read := Cursor.name_denoted denoted
      (opened (h.columns ++ h.closing :: rest) '.' : Cursor.atPunct _ '.' = false)
    obtain ⟨first, ls, spelled, isName⟩ := denoted.exists_cons
    have unopened : Cursor.atPunct
        ⟨h.keyName ++ h.opening :: (h.columns ++ h.closing :: rest), stop⟩ '(' = false := by
      obtain ⟨n, named⟩ := Option.isSome_iff_exists.mp isName
      simp [spelled, Cursor.atPunct, (flat_of_name? named).1]
    simp only [Cursor.keyName, group, List.append_assoc, List.cons_append, List.nil_append,
      unopened, Bool.false_eq_true, if_false, read]
    rfl

/-- The key does not depend on how the name of the table is written. -/
theorem keyClause_append (h : ForeignKeyHead) {xs ys : List Lexeme} {stop : Nat}
    (same : Cursor.name ⟨xs, stop⟩ = Cursor.name ⟨ys, stop⟩) :
    Cursor.keyClause ⟨h.head :: (h.group ++ h.reference :: xs), stop⟩ =
      Cursor.keyClause ⟨h.head :: (h.group ++ h.reference :: ys), stop⟩ := by
  obtain ⟨name, read⟩ := h.exists_keyName stop
  have target : Cursor.references ⟨h.reference :: xs, stop⟩ =
      Cursor.references ⟨h.reference :: ys, stop⟩ := by
    simp only [Cursor.references, Cursor.expectKeyword, Cursor.atKeyword, List.head?_cons,
      Option.any_some, h.refers, Token.isKeyword, beq_self_eq_true, if_true, Cursor.next,
      List.tail_cons, bind, Except.bind, same]
  simp only [Cursor.keyClause, Cursor.keyword?, List.head?_cons, Option.bind_some, h.spelled,
    Token.keyword?, KeyKind.ofKeyword?, Cursor.next, List.tail_cons, read, bind, Except.bind,
    Cursor.group_balanced h.opens h.balanced h.closes, target]
  rfl

theorem definition_append (h : ForeignKeyHead) {xs ys : List Lexeme} {stop : Nat}
    (same : Cursor.name ⟨xs, stop⟩ = Cursor.name ⟨ys, stop⟩) :
    Cursor.definition ⟨h.lexemes ++ xs, stop⟩ = Cursor.definition ⟨h.lexemes ++ ys, stop⟩ := by
  have key := h.keyClause_append same
  have foreign (rest : List Lexeme) :
      Cursor.atAnyKeyword ⟨h.head :: rest, stop⟩ keyClauseWords = true :=
    Cursor.atAnyKeyword_cons h.spelled (by decide) rest stop
  have constrained := h.constrained
  simp only [lexemes, List.append_assoc, List.cons_append, List.nil_append]
  generalize h.symbol = symbol, h.constraint = constraint at constrained
  cases constrained with
  | absent =>
      have other (rest : List Lexeme) :
          Cursor.atKeyword ⟨h.head :: rest, stop⟩ "CONSTRAINT" = false := by
        simp [Cursor.atKeyword, h.spelled, Token.isKeyword]
      simp only [List.nil_append, Cursor.definition, foreign, other, if_true, Bool.false_eq_true,
        if_false, pure, bind, Except.bind, Except.pure, key]
  | @bare l spelled =>
      have opened (rest : List Lexeme) := Cursor.atAnyKeyword_cons spelled
        (by decide : _ ∈ keyClauseWords) rest stop
      have here (rest : List Lexeme) : Cursor.atKeyword ⟨l :: rest, stop⟩ "CONSTRAINT" = true := by
        simp [Cursor.atKeyword, spelled, Token.isKeyword]
      simp only [List.cons_append, List.nil_append, Cursor.definition, opened, here, if_true,
        Cursor.next, List.tail_cons, foreign, pure, bind, Except.bind, Except.pure, key]
  | @named l name ls spelled denoted unkeyed =>
      have opened (rest : List Lexeme) := Cursor.atAnyKeyword_cons spelled
        (by decide : _ ∈ keyClauseWords) rest stop
      have here (rest : List Lexeme) : Cursor.atKeyword ⟨l :: rest, stop⟩ "CONSTRAINT" = true := by
        simp [Cursor.atKeyword, spelled, Token.isKeyword]
      have unkeyed (rest : List Lexeme) :
          Cursor.atAnyKeyword ⟨ls ++ rest, stop⟩ keyClauseWords = false := by
        obtain ⟨first, others, rfl, _⟩ := denoted.exists_cons
        exact unkeyed
      have read (rest : List Lexeme) : Cursor.name ⟨ls ++ h.head :: rest, stop⟩ =
          .ok (name, ⟨h.head :: rest, stop⟩) :=
        Cursor.name_denoted denoted (by simp [Cursor.atPunct, h.spelled, Token.isPunct])
      simp only [List.cons_append, Cursor.definition, opened, here, if_true, Cursor.next,
        List.tail_cons, unkeyed, Bool.false_eq_true, if_false, read, pure, bind, Except.bind,
        Except.pure, key]

end ForeignKeyHead

/-- What stands in a definition of a new table before the table it refers to. -/
inductive Lexeme.DefinitionHead : List Lexeme → Prop where
  | foreign (h : ForeignKeyHead) : DefinitionHead h.lexemes
  | column (h : ColumnHead) (unkeyed : Cursor.atAnyKeyword ⟨h.name, 0⟩ keyClauseWords = false) :
      DefinitionHead h.lexemes

namespace Qualifier

variable (q : Qualifier)

theorem columnTail_append (column : String) (rest : List Lexeme) (stop : Nat) :
    Cursor.columnTail column ⟨q.lexemes ++ rest, stop⟩ = Cursor.columnTail column ⟨rest, stop⟩ := by
  have head : q.head.token.keyword? = none := by simp [q.spelled, Token.keyword?]
  have dot : q.dot.token.keyword? = none := by simp [q.dotted, Token.keyword?]
  simp only [lexemes, List.cons_append, List.nil_append]
  rw [Cursor.columnTail_cons column rfl, head]
  dsimp only [Cursor.next, List.tail_cons]
  rw [Cursor.columnTail_cons column rfl, dot]
  rfl

theorem definition_append {front : List Lexeme} (h : DefinitionHead front) {table : Lexeme}
    {name : String} (named : table.name? = some name) (rest : List Lexeme) (stop : Nat) :
    Cursor.definition ⟨front ++ (q.lexemes ++ table :: rest), stop⟩ =
      Cursor.definition ⟨front ++ table :: rest, stop⟩ := by
  cases h with
  | foreign h => exact h.definition_append (q.name_append _ stop)
  | column h unkeyed =>
      have unkeyed (rest : List Lexeme) :
          Cursor.atAnyKeyword ⟨h.lexemes ++ rest, stop⟩ keyClauseWords = false := by
        obtain ⟨first, others, name, _⟩ := h.named.exists_cons
        rw [name] at unkeyed
        rw [ColumnHead.lexemes, name]
        exact unkeyed
      have column : Cursor.column ⟨h.lexemes ++ (q.lexemes ++ table :: rest), stop⟩ =
          Cursor.column ⟨h.lexemes ++ table :: rest, stop⟩ :=
        h.column_append q.flat_head.1 (flat_of_name? named).1 (q.columnTail_append _ _ stop)
      simp only [Cursor.definition, unkeyed, Bool.false_eq_true, if_false, column]

end Qualifier

namespace Cursor

theorem ofSlice_append (xs : List Lexeme) {ys : List Lexeme} (h : ys ≠ []) :
    ofSlice (xs ++ ys) = ⟨xs ++ ys, (ofSlice ys).stop⟩ := by
  have last := List.getLast?_eq_some_getLast h
  simp [ofSlice, List.getLast?_append, last]

theorem definitions_congr {part other : List Lexeme}
    (h : (ofSlice part).definition = (ofSlice other).definition) (xs ys : List (List Lexeme)) :
    definitions (xs ++ part :: ys) = definitions (xs ++ other :: ys) := by
  induction xs with
  | nil => simp only [List.nil_append, definitions, h]
  | cons x xs ih => simp only [List.cons_append, definitions, ih]

end Cursor

/-! ## Names that are read whole -/

/-- Whether a word is left out is seen from the next lexeme. -/
theorem Lexeme.Guards.append_of_ne_nil {word : String} {guard ls more : List Lexeme}
    (h : Guards word guard (ls ++ more)) (nonempty : ls ≠ []) (others : List Lexeme) :
    Guards word guard (ls ++ others) := by
  obtain ⟨first, ls, rfl⟩ := List.exists_cons_of_ne_nil nonempty
  cases h with
  | absent free => exact .absent free
  | present spelled => exact .present spelled _

/-- A place in a statement where the reader of names meets the name of a table: what stands
    before it, and the name with what follows it. -/
inductive Lexeme.ReaderMeets : List Lexeme → List Lexeme → Prop where
  /-- Behind `CREATE TABLE`. -/
  | created {head guard rest : List Lexeme} (opens : Opens "CREATE" "TEMPORARY" head)
      (guards : Guards "IF NOT EXISTS" guard rest) : ReaderMeets (head ++ guard) rest
  /-- Behind `ALTER TABLE`. -/
  | altered {head : List Lexeme} (opens : Opens "ALTER" "IGNORE" head) (rest : List Lexeme) :
      ReaderMeets head rest
  /-- In the list behind `DROP TABLE`. -/
  | dropped {head guard listed rest : List Lexeme} (opens : Opens "DROP" "TEMPORARY" head)
      (guards : Guards "IF EXISTS" guard (listed ++ rest)) (list : Listed listed) :
      ReaderMeets (head ++ (guard ++ listed)) rest
  /-- Behind `REFERENCES` in the body of a new table. -/
  | referenced {table : String} {head guard name body front : List Lexeme} {opening : Lexeme}
      (opens : Opens "CREATE" "TEMPORARY" head) (guards : Guards "IF NOT EXISTS" guard name)
      (named : Denotes table name) (bracket : opening.token = .punct '(')
      (unclosed : Cursor.splitClose 0 body = none) (outside : body.foldl depthAfter 0 = 0)
      (last : (splitCommas 0 body).getLast? = some front) (definition : DefinitionHead front)
      (rest : List Lexeme) :
      ReaderMeets (head ++ (guard ++ (name ++ opening :: body))) rest

namespace Qualifier

variable (q : Qualifier)

/-- A qualifier stands in the part of a list that the place is in. -/
theorem exists_commaParts {ls front : List Lexeme}
    (last : (splitCommas 0 ls).getLast? = some front) {table : Lexeme} {rest back : List Lexeme}
    (first : (splitCommas (ls.foldl depthAfter 0) (table :: rest)).head? = some (table :: back)) :
    ∃ earlier later,
      commaParts (ls ++ table :: rest) = earlier ++ (front ++ table :: back) :: later ∧
      commaParts (ls ++ (q.lexemes ++ table :: rest)) =
        earlier ++ (front ++ (q.lexemes ++ table :: back)) :: later := by
  obtain ⟨earlier, before⟩ := List.getLast?_eq_some_iff.mp last
  obtain ⟨later, behind⟩ := List.head?_eq_some_iff.mp first
  refine ⟨earlier.filter (!·.isEmpty), later.filter (!·.isEmpty), ?_, ?_⟩
  · rw [commaParts, Lexeme.splitCommas_append, before, behind, meet_append_singleton]
    simp
  · rw [commaParts, Lexeme.splitCommas_append, before, q.splitCommas_append, behind, joinFirst,
      meet_append_singleton]
    simp [lexemes]

theorem definitions_append {body front : List Lexeme}
    (last : (splitCommas 0 body).getLast? = some front) (h : DefinitionHead front) {table : Lexeme}
    {name : String} (named : table.name? = some name) (rest : List Lexeme) :
    Cursor.definitions (commaParts (body ++ (q.lexemes ++ table :: rest))) =
      Cursor.definitions (commaParts (body ++ table :: rest)) := by
  obtain ⟨back, first⟩ := exists_head_splitCommas named (body.foldl depthAfter 0) rest
  obtain ⟨earlier, later, bare, qualified⟩ := q.exists_commaParts last first
  rw [bare, qualified]
  apply Cursor.definitions_congr
  have nonempty : table :: back ≠ [] := List.cons_ne_nil _ _
  rw [← List.append_assoc, Cursor.ofSlice_append _ nonempty, Cursor.ofSlice_append _ nonempty,
    List.append_assoc]
  exact q.definition_append h named back _

theorem group_append {body : List Lexeme} {opening : Lexeme}
    (bracket : opening.token = .punct '(') (unclosed : Cursor.splitClose 0 body = none)
    (outside : body.foldl depthAfter 0 = 0) {table : Lexeme} {name : String}
    (named : table.name? = some name) (rest : List Lexeme) (stop : Nat) :
    (∃ e, Cursor.group ⟨opening :: (body ++ table :: rest), stop⟩ = .error e ∧
      Cursor.group ⟨opening :: (body ++ (q.lexemes ++ table :: rest)), stop⟩ = .error e) ∨
    ∃ inside after,
      Cursor.group ⟨opening :: (body ++ table :: rest), stop⟩ =
        .ok (body ++ table :: inside, ⟨after, stop⟩) ∧
      Cursor.group ⟨opening :: (body ++ (q.lexemes ++ table :: rest)), stop⟩ =
        .ok (body ++ (q.lexemes ++ table :: inside), ⟨after, stop⟩) := by
  have opened (ls : List Lexeme) : Cursor.atPunct ⟨opening :: ls, stop⟩ '(' = true :=
    Token.isPunct_iff.mpr bracket
  simp only [Cursor.group, opened, if_true, List.tail_cons, Cursor.splitClose_of_open unclosed,
    outside, q.splitClose_append, Cursor.splitClose_flat _ _ (flat_of_name? named)]
  cases Cursor.splitClose 0 rest with
  | none => exact .inl ⟨_, rfl, rfl⟩
  | some split => exact .inr ⟨split.1, split.2, rfl, rfl⟩

theorem statement_append {before rest : List Lexeme} {table : Lexeme}
    (h : ReaderMeets before (table :: rest)) {name : String} (named : table.name? = some name)
    (stop : Nat) :
    Cursor.statement ⟨before ++ (q.lexemes ++ table :: rest), stop⟩ =
      Cursor.statement ⟨before ++ table :: rest, stop⟩ := by
  generalize behind : table :: rest = ls at h
  cases h with
  | created opens guards =>
      rw [List.append_assoc, List.append_assoc, Cursor.statement_create opens,
        Cursor.statement_create opens]
      simp only [Cursor.createTable, guards.skipKeyword, (guards.qualified q).skipKeyword,
        q.name_append]
  | altered opens =>
      rw [Cursor.statement_alter opens, Cursor.statement_alter opens]
      simp only [Cursor.alterTable, q.name_append]
  | @dropped head guard listed _ opens guards list =>
      have qualified : Guards "IF EXISTS" guard (listed ++ (q.lexemes ++ ls)) := by
        cases list with
        | nil => exact guards.qualified q
        | cons => exact guards.append_of_ne_nil (by simp) _
      obtain ⟨names, read⟩ := list.tableNames stop
      simp only [List.append_assoc, Cursor.statement_drop opens, Cursor.dropTable,
        guards.skipKeyword, qualified.skipKeyword, read, q.tableNames_append]
  | @referenced _ head guard name body front opening opens guards denoted bracket unclosed outside
      last definition =>
      have guards (more : List Lexeme) : Guards "IF NOT EXISTS" guard (name ++ more) := by
        obtain ⟨first, others, rfl, _⟩ := denoted.exists_cons
        rw [← List.append_nil (first :: others)] at guards
        exact guards.append_of_ne_nil (List.cons_ne_nil _ _) more
      have read (more : List Lexeme) : Cursor.name ⟨name ++ opening :: more, stop⟩ =
          .ok (_, ⟨opening :: more, stop⟩) :=
        Cursor.name_denoted denoted (by simp [Cursor.atPunct, bracket, Token.isPunct])
      subst behind
      simp only [List.append_assoc, List.cons_append, Cursor.statement_create opens,
        Cursor.createTable, (guards _).skipKeyword, read, bind, Except.bind]
      rcases q.group_append bracket unclosed outside named rest stop with
        ⟨e, bare, qualified⟩ | ⟨inside, after, bare, qualified⟩
      · rw [bare, qualified]
      · rw [bare, qualified]
        dsimp only
        rw [q.definitions_append last definition named]

end Qualifier

end TableShift
