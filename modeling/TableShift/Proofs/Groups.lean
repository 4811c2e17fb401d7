import TableShift.Schema.ColumnClause
import TableShift.Sql.Script

/-! # Groups and lists

A group is a pair of parentheses around lexemes in which every parenthesis is closed,
and a list is made of parts with commas between them. A reader finds the end of a group
and the parts of a list whatever stands inside them, and among the tokens of a clause a
group is opaque: every word in it is an identifier.
-/

namespace TableShift

namespace Lexeme

/-- A lexeme that opens and closes nothing. -/
def Flat (l : Lexeme) : Prop :=
  l.token.isPunct '(' = false ∧ l.token.isPunct ')' = false

/-- Lexemes in which every parenthesis is closed. -/
inductive Balanced : List Lexeme → Prop where
  | nil : Balanced []
  | flat {l : Lexeme} {ls : List Lexeme} (flat : l.Flat) (rest : Balanced ls) : Balanced (l :: ls)
  | group {opening closing : Lexeme} {inside ls : List Lexeme}
      (opens : opening.token = .punct '(') (inner : Balanced inside)
      (closes : closing.token = .punct ')') (rest : Balanced ls) :
      Balanced (opening :: (inside ++ closing :: ls))

namespace Balanced

theorem append {xs ys : List Lexeme} (hx : Balanced xs) (hy : Balanced ys) :
    Balanced (xs ++ ys) := by
  induction hx with
  | nil => exact hy
  | flat l _ ih => exact .flat l ih
  | group opens inner closes _ _ ih =>
      rw [List.cons_append, List.append_assoc, List.cons_append]
      exact .group opens inner closes ih

end Balanced

theorem balanced_of_flat {ls : List Lexeme} (h : ∀ l ∈ ls, l.Flat) : Balanced ls := by
  induction ls with
  | nil => exact .nil
  | cons l ls ih =>
      rw [List.forall_mem_cons] at h
      exact .flat h.1 (ih h.2)

end Lexeme

/-! ## The end of a group -/

namespace Cursor

open Lexeme

section Steps

variable {l : Lexeme} (depth : Nat) (ls : List Lexeme)

theorem splitClose_flat (flat : l.Flat) :
    splitClose depth (l :: ls) = (splitClose depth ls).map (keepInside l) := by
  cases depth <;> simp [splitClose, flat.1, flat.2]

theorem splitClose_open (opens : l.token = .punct '(') :
    splitClose depth (l :: ls) = (splitClose (depth + 1) ls).map (keepInside l) := by
  cases depth <;> simp [splitClose, opens, Token.isPunct]

theorem splitClose_close (closes : l.token = .punct ')') :
    splitClose (depth + 1) (l :: ls) = (splitClose depth ls).map (keepInside l) := by
  simp [splitClose, closes, Token.isPunct]

theorem splitClose_end (closes : l.token = .punct ')') :
    splitClose 0 (l :: ls) = some ([], ls) := by
  simp [splitClose, closes, Token.isPunct]

end Steps

theorem splitClose_balanced {inside : List Lexeme} (h : Balanced inside) (depth : Nat)
    (rest : List Lexeme) :
    splitClose depth (inside ++ rest) =
      (splitClose depth rest).map fun split => (inside ++ split.1, split.2) := by
  induction h generalizing depth rest with
  | nil => simp
  | flat l _ ih =>
      rw [List.cons_append, splitClose_flat _ _ l, ih, Option.map_map]
      rfl
  | group opens _ closes _ inner_ih ih =>
      rw [List.cons_append, List.append_assoc, List.cons_append, splitClose_open _ _ opens, inner_ih,
        splitClose_close _ _ closes, ih, Option.map_map, Option.map_map, Option.map_map]
      simp [Function.comp_def, keepInside]

theorem group_balanced {opening closing : Lexeme} {inside : List Lexeme}
    (opens : opening.token = .punct '(') (h : Balanced inside)
    (closes : closing.token = .punct ')') (rest : List Lexeme) (stop : Nat) :
    group ⟨opening :: (inside ++ closing :: rest), stop⟩ = .ok (inside, ⟨rest, stop⟩) := by
  simp [group, atPunct, opens, Token.isPunct, splitClose_balanced h, splitClose_end _ closes]

end Cursor

/-! ## The parts of a list -/

namespace Lexeme

/-- A part of a list: it is not empty, its parentheses are closed, and it has no comma. -/
structure Part (ls : List Lexeme) : Prop where
  nonempty : ls ≠ []
  balanced : Balanced ls
  uncut : ∀ l ∈ ls, l.token.isPunct ',' = false

/-- Parts with a comma between each two. -/
inductive Separated : List (List Lexeme) → List Lexeme → Prop where
  | one (part : List Lexeme) : Separated [part] part
  | cons (part : List Lexeme) {comma : Lexeme} {parts : List (List Lexeme)} {ls : List Lexeme}
      (mark : comma.token = .punct ',') (rest : Separated parts ls) :
      Separated (part :: parts) (part ++ comma :: ls)

theorem Separated.balanced {parts : List (List Lexeme)} {ls : List Lexeme}
    (h : Separated parts ls) (balanced : ∀ part ∈ parts, Balanced part) : Balanced ls := by
  induction h with
  | one part => exact balanced part (List.mem_singleton_self part)
  | cons part mark _ ih =>
      refine (balanced part (List.mem_cons_self ..)).append (.flat ?_ ?_)
      · simp [Flat, mark, Token.isPunct]
      · exact ih fun part member => balanced part (List.mem_cons_of_mem _ member)

theorem Separated.mem {parts : List (List Lexeme)} {ls part : List Lexeme} {l : Lexeme}
    (h : Separated parts ls) (listed : part ∈ parts) (member : l ∈ part) : l ∈ ls := by
  induction h with
  | one first =>
      rw [List.mem_singleton] at listed
      exact listed ▸ member
  | cons first _ _ ih =>
      rcases List.mem_cons.mp listed with rfl | later
      · exact List.mem_append_left _ member
      · exact List.mem_append_right _ (List.mem_cons_of_mem _ (ih later))

/-- Puts lexemes in front of the first part. -/
def joinFirst (ls : List Lexeme) : List (List Lexeme) → List (List Lexeme)
  | [] => [ls]
  | part :: parts => (ls ++ part) :: parts

theorem splitCommas_cons {depth : Nat} {l : Lexeme}
    (uncut : (l.token.isPunct ',' && depth == 0) = false) (ls : List Lexeme) :
    splitCommas depth (l :: ls) = joinFirst [l] (splitCommas (depthAfter depth l) ls) := by
  simp only [splitCommas, uncut, Bool.false_eq_true, if_false]
  cases splitCommas (depthAfter depth l) ls <;> rfl

theorem joinFirst_joinFirst (xs ys : List Lexeme) (parts : List (List Lexeme)) :
    joinFirst xs (joinFirst ys parts) = joinFirst (xs ++ ys) parts := by
  cases parts with
  | nil => rfl
  | cons part parts => simp [joinFirst]

theorem depthAfter_flat {l : Lexeme} (flat : l.Flat) (depth : Nat) : depthAfter depth l = depth := by
  simp [depthAfter, flat.1, flat.2]

theorem depthAfter_open {l : Lexeme} (opens : l.token = .punct '(') (depth : Nat) :
    depthAfter depth l = depth + 1 := by
  simp [depthAfter, opens, Token.isPunct]

theorem depthAfter_close {l : Lexeme} (closes : l.token = .punct ')') (depth : Nat) :
    depthAfter (depth + 1) l = depth := by
  simp [depthAfter, closes, Token.isPunct]

theorem splitCommas_ne_nil (depth : Nat) (ls : List Lexeme) : splitCommas depth ls ≠ [] := by
  cases ls with
  | nil => simp [splitCommas]
  | cons l ls =>
      rw [splitCommas]
      split
      · simp
      · split <;> simp

theorem joinFirst_nil (depth : Nat) (ls : List Lexeme) :
    joinFirst [] (splitCommas depth ls) = splitCommas depth ls := by
  obtain ⟨part, parts, split⟩ := List.exists_cons_of_ne_nil (splitCommas_ne_nil depth ls)
  rw [split]
  rfl

theorem splitCommas_inside {ls : List Lexeme} (h : Balanced ls) (depth : Nat) (rest : List Lexeme) :
    splitCommas (depth + 1) (ls ++ rest) = joinFirst ls (splitCommas (depth + 1) rest) := by
  have uncut (depth : Nat) (l : Lexeme) : (l.token.isPunct ',' && (depth + 1 == 0)) = false :=
    Bool.and_false _
  induction h generalizing depth rest with
  | nil => exact (joinFirst_nil _ rest).symm
  | flat l _ ih =>
      rw [List.cons_append, splitCommas_cons (uncut _ _), depthAfter_flat l, ih, joinFirst_joinFirst]
      rfl
  | group opens _ closes _ inner_ih ih =>
      rw [List.cons_append, List.append_assoc, List.cons_append, splitCommas_cons (uncut _ _),
        depthAfter_open opens, inner_ih, splitCommas_cons (uncut _ _), depthAfter_close closes, ih,
        joinFirst_joinFirst, joinFirst_joinFirst, joinFirst_joinFirst]
      simp

/-- Lexemes that belong to one part of a list: their parentheses are closed, and a comma
    stands only inside a group. -/
inductive Solid : List Lexeme → Prop where
  | nil : Solid []
  | flat {l : Lexeme} {ls : List Lexeme} (flat : l.Flat) (uncut : l.token.isPunct ',' = false)
      (rest : Solid ls) : Solid (l :: ls)
  | group {opening closing : Lexeme} {inside ls : List Lexeme}
      (opens : opening.token = .punct '(') (inner : Balanced inside)
      (closes : closing.token = .punct ')') (rest : Solid ls) :
      Solid (opening :: (inside ++ closing :: ls))

namespace Solid

theorem balanced {ls : List Lexeme} (h : Solid ls) : Balanced ls := by
  induction h with
  | nil => exact .nil
  | flat l _ _ ih => exact .flat l ih
  | group opens inner closes _ ih => exact .group opens inner closes ih

theorem append {xs ys : List Lexeme} (hx : Solid xs) (hy : Solid ys) : Solid (xs ++ ys) := by
  induction hx with
  | nil => exact hy
  | flat l uncut _ ih => exact .flat l uncut ih
  | group opens inner closes _ ih =>
      rw [List.cons_append, List.append_assoc, List.cons_append]
      exact .group opens inner closes ih

theorem splitCommas_append {ls : List Lexeme} (h : Solid ls) (rest : List Lexeme) :
    splitCommas 0 (ls ++ rest) = joinFirst ls (splitCommas 0 rest) := by
  induction h with
  | nil => exact (joinFirst_nil 0 rest).symm
  | flat l uncut _ ih =>
      rw [List.cons_append, splitCommas_cons (by simp [uncut]), depthAfter_flat l, ih,
        joinFirst_joinFirst]
      rfl
  | group opens inner closes _ ih =>
      rw [List.cons_append, List.append_assoc, List.cons_append,
        splitCommas_cons (by simp [opens, Token.isPunct]), depthAfter_open opens,
        splitCommas_inside inner, splitCommas_cons (by simp), depthAfter_close closes, ih,
        joinFirst_joinFirst, joinFirst_joinFirst, joinFirst_joinFirst]
      simp

end Solid

theorem Balanced.solid {ls : List Lexeme} (h : Balanced ls)
    (uncut : ∀ l ∈ ls, l.token.isPunct ',' = false) : Solid ls := by
  induction h with
  | nil => exact .nil
  | flat l _ ih =>
      rw [List.forall_mem_cons] at uncut
      exact .flat l uncut.1 (ih uncut.2)
  | group opens inner closes _ _ ih =>
      simp only [List.forall_mem_cons, List.forall_mem_append] at uncut
      exact .group opens inner closes (ih uncut.2.2.2)

theorem splitCommas_separated {parts : List (List Lexeme)} {ls : List Lexeme}
    (h : Separated parts ls) (solid : ∀ part ∈ parts, Solid part) : splitCommas 0 ls = parts := by
  induction h with
  | one part =>
      have alone := (solid part (List.mem_singleton_self part)).splitCommas_append []
      simpa [splitCommas, joinFirst] using alone
  | cons part mark _ ih =>
      simp only [List.forall_mem_cons] at solid
      have cut : ∀ comma : Lexeme, ∀ ls, comma.token = .punct ',' →
          splitCommas 0 (comma :: ls) = [] :: splitCommas 0 ls := by
        intro comma ls mark
        simp [splitCommas, mark, Token.isPunct]
      rw [solid.1.splitCommas_append, cut _ _ mark, ih solid.2]
      simp [joinFirst]

/-- A list is read as its parts. -/
theorem commaParts_solid {parts : List (List Lexeme)} {ls : List Lexeme} (h : Separated parts ls)
    (nonempty : ∀ part ∈ parts, part ≠ []) (solid : ∀ part ∈ parts, Solid part) :
    commaParts ls = parts := by
  rw [commaParts, splitCommas_separated h solid, List.filter_eq_self]
  intro part member
  simpa using nonempty part member

theorem commaParts_separated {parts : List (List Lexeme)} {ls : List Lexeme}
    (h : Separated parts ls) (whole : ∀ part ∈ parts, Part part) : commaParts ls = parts :=
  commaParts_solid h (fun part member => (whole part member).nonempty)
    fun part member => (whole part member).balanced.solid (whole part member).uncut

/-! ## Groups among the tokens of a clause -/

/-- Whether a name follows lexemes, given whether one follows what is before them. -/
def nameFollows (before : Bool) (ls : List Lexeme) : Bool :=
  (ls.getLast?.map introducesName).getD before

theorem clauseTokens_append (depth : Nat) (before : Bool) (xs ys : List Lexeme) :
    clauseTokens depth before (xs ++ ys) =
      clauseTokens depth before xs ++
        clauseTokens (xs.foldl depthAfter depth) (nameFollows before xs) ys := by
  induction xs generalizing depth before with
  | nil => rfl
  | cons l xs ih =>
      have follows : nameFollows before (l :: xs) = nameFollows l.introducesName xs := by
        simp [nameFollows, List.getLast?_cons]
      simp only [List.cons_append, clauseTokens, ih, List.foldl_cons, follows]

theorem foldl_depthAfter_balanced {ls : List Lexeme} (h : Balanced ls) (depth : Nat) :
    ls.foldl depthAfter depth = depth := by
  induction h generalizing depth with
  | nil => rfl
  | flat l _ ih => rw [List.foldl_cons, depthAfter_flat l, ih]
  | group opens _ closes _ inner_ih ih =>
      rw [List.foldl_cons, List.foldl_append, List.foldl_cons, depthAfter_open opens, inner_ih,
        depthAfter_close closes, ih]

/-- Inside parentheses every word is an identifier. -/
theorem clauseTokens_inside {ls : List Lexeme} (h : Balanced ls) (depth : Nat) (before : Bool) :
    clauseTokens (depth + 1) before ls = ls.map asIdentifier := by
  induction h generalizing depth before with
  | nil => rfl
  | flat l _ ih => simp [clauseTokens, depthAfter_flat l, ih]
  | group opens inner closes _ inner_ih ih =>
      simp [clauseTokens, depthAfter_open opens, clauseTokens_append, inner_ih,
        foldl_depthAfter_balanced inner, depthAfter_close closes, ih]

theorem asIdentifier_punct {l : Lexeme} {mark : Char} (h : l.token = .punct mark) :
    l.asIdentifier = .punct mark := by
  simp [asIdentifier, name?, h]

theorem introducesName_punct {l : Lexeme} {mark : Char} (h : l.token = .punct mark) :
    l.introducesName = false := by
  simp [introducesName, nameIntroducers, h, Token.isKeyword]

theorem introducesName_keyword {l : Lexeme} {word : String} (h : l.token = .keyword word) :
    l.introducesName = nameIntroducers.any (word == ·) := by
  simp [introducesName, h, Token.isKeyword]

theorem clauseTokens_flat {l : Lexeme} (flat : l.Flat) (before : Bool) (rest : List Lexeme) :
    clauseTokens 0 before (l :: rest) =
      (if before then l.asIdentifier else l.token) :: clauseTokens 0 l.introducesName rest := by
  simp [clauseTokens, depthAfter_flat flat]

theorem flat_of_keyword {l : Lexeme} {word : String} (h : l.token = .keyword word) : l.Flat := by
  simp [Flat, h, Token.isPunct]

theorem flat_of_name? {l : Lexeme} {name : String} (h : l.name? = some name) : l.Flat := by
  cases token : l.token with
  | punct mark => simp [name?, token] at h
  | keyword | identifier | literal => simp [Flat, token, Token.isPunct]

theorem keyword?_asIdentifier (l : Lexeme) : l.asIdentifier.keyword? = none := by
  cases token : l.token with
  | literal value => cases value <;> simp [asIdentifier, name?, token, Token.keyword?]
  | keyword | identifier | punct => simp [asIdentifier, name?, token, Token.keyword?]

theorem clauseTokens_group {opening closing : Lexeme} {inside : List Lexeme}
    (opens : opening.token = .punct '(') (h : Balanced inside)
    (closes : closing.token = .punct ')') (before : Bool) (rest : List Lexeme) :
    clauseTokens 0 before (opening :: (inside ++ closing :: rest)) =
      .punct '(' :: (inside.map asIdentifier ++ .punct ')' :: clauseTokens 0 false rest) := by
  simp [clauseTokens, depthAfter_open opens, clauseTokens_append, clauseTokens_inside h,
    foldl_depthAfter_balanced h, depthAfter_close closes, introducesName_punct closes,
    asIdentifier_punct opens, asIdentifier_punct closes, opens]

theorem isPunct_asIdentifier (l : Lexeme) (mark : Char) :
    l.asIdentifier.isPunct mark = l.token.isPunct mark := by
  cases token : l.token with
  | literal value => cases value <;> simp [asIdentifier, name?, token, Token.isPunct]
  | keyword | identifier | punct => simp [asIdentifier, name?, token, Token.isPunct]

theorem Part.flat {l : Lexeme} (h : Part [l]) : l.Flat := by
  generalize single : [l] = ls at h
  cases h.balanced with
  | nil => cases single
  | flat flat _ =>
      cases single
      exact flat
  | group => simp at single

theorem textsToClose?_cons {l : Lexeme} (h : Part [l]) (tokens : List Token) :
    textsToClose? (l.asIdentifier :: tokens) =
      (textsToClose? tokens).map (l.asIdentifier.text :: ·) := by
  have uncut := h.uncut l (List.mem_singleton_self l)
  simp [textsToClose?, isPunct_asIdentifier, uncut, h.flat.2]

theorem textsToClose?_separated {singles inside : List Lexeme} (single : ∀ l ∈ singles, Part [l])
    (h : Separated (singles.map ([·])) inside) (rest : List Token) :
    textsToClose? (inside.map asIdentifier ++ .punct ')' :: rest) =
      some (singles.map (·.asIdentifier.text)) := by
  have closed : textsToClose? (.punct ')' :: rest) = some [] := rfl
  generalize parts : singles.map ([·]) = listed at h
  induction h generalizing singles with
  | one part =>
      obtain ⟨l, rfl, rfl⟩ := List.map_eq_singleton_iff.mp parts
      rw [List.forall_mem_singleton] at single
      simp [textsToClose?_cons single, closed]
  | cons part mark _ ih =>
      obtain ⟨l, later, rfl, rfl, others⟩ := List.map_eq_cons_iff.mp parts
      rw [List.forall_mem_cons] at single
      have comma (tokens : List Token) : textsToClose? (.punct ',' :: tokens) =
          textsToClose? tokens := rfl
      simp [textsToClose?_cons single.1, asIdentifier_punct mark, comma, ih single.2 others]

theorem parameterTexts_separated {singles inside : List Lexeme} (single : ∀ l ∈ singles, Part [l])
    (h : Separated (singles.map ([·])) inside) (rest : List Token) :
    parameterTexts (.punct '(' :: (inside.map asIdentifier ++ .punct ')' :: rest)) =
      singles.map (·.asIdentifier.text) := by
  have texts := textsToClose?_separated single h rest
  exact congrArg (Option.getD · []) texts

end Lexeme

end TableShift
