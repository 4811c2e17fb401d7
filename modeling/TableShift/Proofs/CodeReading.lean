import Mathlib.Data.List.Basic
import TableShift.Proofs.Literals

/-! # Reading generated code

Generated code is a list of calls on the schema, most with a block of statements on one
table, and a statement is a chain of calls on the table builder. The code is read from left
to right. The arguments of a call go up to the parenthesis that closes them, which literals
and brackets tell; a statement goes up to its semicolon. Blanks and remarks in front of a
call or a statement count for nothing.
-/

namespace TableShift

/-- A call of a method, with the text of its arguments. -/
structure MethodCall where
  method : String
  arguments : String
  deriving Repr, DecidableEq

/-- The call as it is chained to what stands before it. -/
def MethodCall.code (call : MethodCall) : String :=
  "->" ++ call.method ++ "(" ++ call.arguments ++ ")"

/-- A call on the schema. -/
inductive SchemaCall where
  /-- A method on a table, with a block of statements. -/
  | block (method table : String) (body : List (List MethodCall))
  /-- A method on a table alone. -/
  | plain (method table : String)
  deriving Repr, DecidableEq

/-- The statements in the block of a call. -/
def SchemaCall.body : SchemaCall → List (List MethodCall)
  | block _ _ body => body
  | plain _ _ => []

theorem exists_of_map_cons {α : Type} {found : Option (List α × List Char)} {a : α} {as : List α}
    {rest : List Char} (h : found.map (Prod.map (a :: ·) id) = some (as, rest)) :
    ∃ later, as = a :: later ∧ found = some (later, rest) := by
  obtain ⟨⟨later, last⟩, rfl, same⟩ := Option.map_eq_some_iff.mp h
  simp only [Prod.map_apply, id_eq, Prod.mk.injEq] at same
  obtain ⟨rfl, rfl⟩ := same
  exact ⟨later, rfl, rfl⟩

/-! ## Arguments -/

/-- Where a character of arguments stands: between literals, or in a literal with this mark at
    its ends, right behind a backslash or not. The open brackets are told by what closes them. -/
inductive ArgumentPlace where
  | between (closers : List Char)
  | literal (closers : List Char) (mark : Char) (escaped : Bool)
  deriving Repr, DecidableEq

/-- The bracket that closes a bracket. -/
def closerOf? : Char → Option Char
  | '(' => some ')'
  | '[' => some ']'
  | '\x7b' => some '\x7d'
  | _ => none

/-- Whether a character between literals is the end of all arguments: a semicolon, or the start
    of a comment, of a shell command, of a text over several lines or of what is not code. -/
def breaksOff (c : Char) (following : List Char) : Bool :=
  c == ';' || c == '#' || c == '\x60' ||
    (c == '/' && (following.head? == some '/' || following.head? == some '*')) ||
    (c == '<' && following.take 2 == ['<', '<']) ||
    (c == '?' && following.head? == some '>')

namespace ArgumentPlace

/-- The place behind a character; none if no arguments have the character there. -/
def next? (place : ArgumentPlace) (c : Char) (following : List Char) : Option ArgumentPlace :=
  match place with
  | literal closers mark true => some (literal closers mark false)
  | literal closers mark false =>
    if c = '\\' then some (literal closers mark true)
    else if c = mark then some (between closers)
    -- Between double quotes a dollar sign can begin code with quotes of its own.
    else if c = '$' ∧ mark = '"' then none
    else some (literal closers mark false)
  | between closers =>
    if c = '\'' ∨ c = '"' then some (literal closers c false)
    else if breaksOff c following then none
    else if c = ')' ∨ c = ']' ∨ c = '\x7d' then
      match closers with
      | [] => none
      | closer :: outer => if c = closer then some (between outer) else none
    else
      match closerOf? c with
      | some closer => some (between (closer :: closers))
      | none => some (between closers)

/-- Whether characters lead from a place to the end of the arguments. -/
def endsAfter : ArgumentPlace → List Char → Bool
  | place, [] => place == between []
  | place, c :: cs => (place.next? c cs).any fun next => next.endsAfter cs

/-- The arguments up to the parenthesis that closes them, and what follows it. -/
def split? : ArgumentPlace → List Char → Option (List Char × List Char)
  | _, [] => none
  | place, c :: cs =>
    if place = between [] ∧ c = ')' then some ([], cs)
    else (place.next? c cs).bind fun next => (next.split? cs).map (Prod.map (c :: ·) id)

end ArgumentPlace

/-- Whether a text can stand in the parentheses of a call: its literals end, and its brackets
    close one another. -/
def IsArguments (text : String) : Prop :=
  ArgumentPlace.endsAfter (.between []) text.toList = true
  deriving Decidable

namespace ArgumentPlace

theorem breaksOff_append_paren (c : Char) (cs rest : List Char) :
    breaksOff c (cs ++ ')' :: rest) = breaksOff c cs := by
  cases cs with
  | nil => simp [breaksOff]
  | cons d cs => cases cs <;> simp [breaksOff]

theorem next?_append_paren (place : ArgumentPlace) (c : Char) (cs rest : List Char) :
    place.next? c (cs ++ ')' :: rest) = place.next? c cs := by
  unfold next?
  rw [breaksOff_append_paren]

theorem split?_append {place : ArgumentPlace} {cs : List Char} (h : place.endsAfter cs = true)
    (rest : List Char) : place.split? (cs ++ ')' :: rest) = some (cs, rest) := by
  induction cs generalizing place with
  | nil =>
      obtain rfl : place = between [] := by simpa [endsAfter] using h
      rfl
  | cons c cs ih =>
      obtain ⟨next, here, later⟩ := (Option.any_eq_true ..).mp h
      have inner : ¬(place = between [] ∧ c = ')') := by
        rintro ⟨rfl, rfl⟩
        have closed : (between []).next? ')' cs = none := by simp [next?, breaksOff]
        simp [closed] at here
      rw [List.cons_append, split?, if_neg inner, next?_append_paren, here]
      simp [ih later]

theorem of_split? {place : ArgumentPlace} {cs arguments rest : List Char}
    (h : place.split? cs = some (arguments, rest)) :
    cs = arguments ++ ')' :: rest ∧ place.endsAfter arguments = true := by
  induction cs generalizing place arguments with
  | nil => simp [split?] at h
  | cons c cs ih =>
      rw [split?] at h
      split at h
      · rename_i closes
        obtain ⟨rfl, rfl⟩ := closes
        simp only [Option.some.injEq, Prod.mk.injEq] at h
        obtain ⟨rfl, rfl⟩ := h
        exact ⟨rfl, rfl⟩
      · obtain ⟨next, here, found⟩ := Option.bind_eq_some_iff.mp h
        obtain ⟨front, rfl, read⟩ := exists_of_map_cons found
        obtain ⟨rfl, ends⟩ := ih read
        rw [next?_append_paren] at here
        exact ⟨rfl, by simp [endsAfter, here, ends]⟩

end ArgumentPlace

/-- A call whose method is a word and whose parentheses have arguments in them. -/
structure MethodCall.Legible (call : MethodCall) : Prop where
  word : call.method.toList.all Char.isAlphanum = true
  arguments : IsArguments call.arguments

theorem IsArguments.split? {arguments : String} (h : IsArguments arguments) (rest : List Char) :
    ArgumentPlace.split? (.between []) (arguments.toList ++ ')' :: rest) =
      some (arguments.toList, rest) :=
  ArgumentPlace.split?_append h rest

/-! ## Statements and blocks -/

namespace Code

/-- Code without the blanks and remarks in front of it; `remark` tells whether it begins inside
    a remark. -/
def skipBlanks (remark : Bool) : List Char → List Char
  | [] => []
  | '/' :: '/' :: cs => skipBlanks true cs
  | c :: cs =>
    if remark then skipBlanks (c ≠ '\n') cs
    else if c.isWhitespace then skipBlanks false cs
    else c :: cs

theorem length_skipBlanks_le (remark : Bool) (cs : List Char) :
    (skipBlanks remark cs).length ≤ cs.length := by
  fun_induction skipBlanks remark cs <;> simp_all <;> omega

theorem length_lt_of_skipBlanks (front : List Char) {cs rest : List Char} (visible : front ≠ [])
    (h : skipBlanks false cs = front ++ rest) : rest.length < cs.length := by
  have le := length_skipBlanks_le false cs
  have pos := List.length_pos_iff.mpr visible
  rw [h, List.length_append] at le
  omega

/-- What follows a word, if it is in front. -/
def after? (word : String) (cs : List Char) : Option (List Char) :=
  cs.dropPrefix? word.toList

theorem after?_append (word : String) (rest : List Char) :
    after? word (word.toList ++ rest) = some rest := by
  simp [after?, List.dropPrefix?_eq_some_iff]

theorem of_after? {word : String} {cs rest : List Char} (h : after? word cs = some rest) :
    cs = word.toList ++ rest := by
  obtain ⟨front, rfl, same⟩ := List.dropPrefix?_eq_some_iff.mp h
  rw [eq_of_beq same]

/-- A chained call, and what follows it. -/
def call? (cs : List Char) : Option (MethodCall × List Char) :=
  match cs.dropWhile Char.isAlphanum with
  | '(' :: inside =>
    (ArgumentPlace.split? (.between []) inside).map fun (arguments, rest) =>
      (⟨.ofList (cs.takeWhile Char.isAlphanum), .ofList arguments⟩, rest)
  | _ => none

theorem of_call? {cs rest : List Char} {call : MethodCall} (h : call? cs = some (call, rest)) :
    IsArguments call.arguments ∧ rest.length < cs.length := by
  unfold call? at h
  split at h
  · rename_i inside opened
    obtain ⟨⟨arguments, after⟩, read, same⟩ := Option.map_eq_some_iff.mp h
    simp only [Prod.mk.injEq] at same
    obtain ⟨rfl, rfl⟩ := same
    obtain ⟨rfl, ends⟩ := ArgumentPlace.of_split? read
    have shorter := (List.dropWhile_suffix Char.isAlphanum (l := cs)).length_le
    rw [opened] at shorter
    simp only [List.length_cons, List.length_append] at shorter
    exact ⟨by simpa [IsArguments] using ends, by omega⟩
  · simp at h

/-- The calls of a statement up to its semicolon, and what follows it. -/
def calls? (cs : List Char) : Option (List MethodCall × List Char) :=
  match _skipped : skipBlanks false cs with
  | ';' :: rest => some ([], rest)
  | '-' :: '>' :: chained =>
    match _found : call? chained with
    | some (call, rest) => (calls? rest).map (Prod.map (call :: ·) id)
    | none => none
  | _ => none
  termination_by cs.length
  decreasing_by
    have front := length_lt_of_skipBlanks ['-', '>'] (by simp) _skipped
    have later := (of_call? _found).2
    omega

theorem of_calls? {cs rest : List Char} {calls : List MethodCall}
    (h : calls? cs = some (calls, rest)) :
    (∀ call ∈ calls, IsArguments call.arguments) ∧ rest.length < cs.length := by
  fun_induction calls? cs generalizing calls rest with
  | case1 cs after ended =>
      simp only [Option.some.injEq, Prod.mk.injEq] at h
      obtain ⟨rfl, rfl⟩ := h
      exact ⟨by simp, length_lt_of_skipBlanks [';'] (by simp) ended⟩
  | case2 cs chained begun call after found ih =>
      obtain ⟨later, rfl, read⟩ := exists_of_map_cons h
      obtain ⟨each, shorter⟩ := ih read
      obtain ⟨first, front⟩ := of_call? found
      have chain := length_lt_of_skipBlanks ['-', '>'] (by simp) begun
      exact ⟨List.forall_mem_cons.mpr ⟨first, each⟩, by omega⟩
  | case3 | case4 => simp at h

theorem length_lt_of_after? {word : String} {cs rest : List Char} (visible : word.toList ≠ [])
    (h : after? word (skipBlanks false cs) = some rest) : rest.length < cs.length :=
  length_lt_of_skipBlanks _ visible (of_after? h)

/-- The statements of a block up to its end, and what follows it. -/
def statements? (cs : List Char) : Option (List (List MethodCall) × List Char) :=
  match _begun : after? "$table" (skipBlanks false cs) with
  | some chained =>
    match _found : calls? chained with
    | some (calls, rest) => (statements? rest).map (Prod.map (calls :: ·) id)
    | none => none
  | none => (after? "\x7d);" (skipBlanks false cs)).map fun rest => ([], rest)
  termination_by cs.length
  decreasing_by
    have front := length_lt_of_after? (by decide) _begun
    have later := (of_calls? _found).2
    omega

theorem of_statements? {cs rest : List Char} {body : List (List MethodCall)}
    (h : statements? cs = some (body, rest)) :
    (∀ calls ∈ body, ∀ call ∈ calls, IsArguments call.arguments) ∧ rest.length < cs.length := by
  fun_induction statements? cs generalizing body rest with
  | case1 cs chained begun calls after found ih =>
      obtain ⟨later, rfl, read⟩ := exists_of_map_cons h
      obtain ⟨each, shorter⟩ := ih read
      obtain ⟨first, front⟩ := of_calls? found
      have chain := length_lt_of_after? (by decide) begun
      exact ⟨List.forall_mem_cons.mpr ⟨first, each⟩, by omega⟩
  | case2 => simp at h
  | case3 cs other =>
      obtain ⟨after, ended, same⟩ := Option.map_eq_some_iff.mp h
      simp only [Prod.mk.injEq] at same
      obtain ⟨rfl, rfl⟩ := same
      exact ⟨by simp, length_lt_of_after? (by decide) ended⟩

/-- A call on the schema, and what follows it. -/
def schemaCall? (cs : List Char) : Option (SchemaCall × List Char) :=
  let method := String.ofList (cs.takeWhile Char.isAlphanum)
  match cs.dropWhile Char.isAlphanum with
  | '(' :: '\'' :: quoted =>
    match literalBody? quoted with
    | some (table, rest) =>
      match after? ", function (Blueprint $table) \x7b" rest with
      | some body =>
        (statements? body).map fun (body, rest) => (.block method (.ofList table) body, rest)
      | none => (after? ");" rest).map fun rest => (.plain method (.ofList table), rest)
    | none => none
  | _ => none

theorem length_lt_of_literalBody? {cs text rest : List Char}
    (h : literalBody? cs = some (text, rest)) : rest.length < cs.length := by
  fun_induction literalBody? cs generalizing text with
  | case1 => simp at h
  | case2 cs =>
      simp only [Option.some.injEq, Prod.mk.injEq] at h
      simp [h.2]
  | case3 cs ih | case4 cs ih | case5 c cs _ _ _ ih =>
      obtain ⟨later, -, read⟩ := exists_of_map_cons h
      have shorter := ih read
      simp only [List.length_cons]
      omega

theorem of_schemaCall? {cs rest : List Char} {call : SchemaCall}
    (h : schemaCall? cs = some (call, rest)) :
    (∀ calls ∈ call.body, ∀ call ∈ calls, IsArguments call.arguments) ∧
      rest.length < cs.length := by
  unfold schemaCall? at h
  simp only at h
  split at h
  · rename_i quoted opened
    split at h
    · rename_i table after read
      have shorter := (List.dropWhile_suffix Char.isAlphanum (l := cs)).length_le
      have literal := length_lt_of_literalBody? read
      rw [opened] at shorter
      simp only [List.length_cons] at shorter
      split at h
      · rename_i opening body block
        obtain ⟨⟨body, last⟩, read, same⟩ := Option.map_eq_some_iff.mp h
        simp only [Prod.mk.injEq] at same
        obtain ⟨rfl, rfl⟩ := same
        obtain ⟨each, inner⟩ := of_statements? read
        have front := congrArg List.length (of_after? block)
        rw [List.length_append] at front
        exact ⟨each, by omega⟩
      · obtain ⟨last, closed, same⟩ := Option.map_eq_some_iff.mp h
        simp only [Prod.mk.injEq] at same
        obtain ⟨rfl, rfl⟩ := same
        have front := congrArg List.length (of_after? closed)
        rw [List.length_append] at front
        exact ⟨by simp [SchemaCall.body], by omega⟩
    · simp at h
  · simp at h

/-- The calls on the schema up to the end of the code. -/
def schemaCalls? (cs : List Char) : Option (List SchemaCall × List Char) :=
  match _begun : after? "Schema::" (skipBlanks false cs) with
  | some called =>
    match _found : schemaCall? called with
    | some (call, rest) => (schemaCalls? rest).map (Prod.map (call :: ·) id)
    | none => none
  | none => if skipBlanks false cs = [] then some ([], []) else none
  termination_by cs.length
  decreasing_by
    have front := length_lt_of_after? (by decide) _begun
    have later := (of_schemaCall? _found).2
    omega

theorem of_schemaCalls? {cs rest : List Char} {calls : List SchemaCall}
    (h : schemaCalls? cs = some (calls, rest)) :
    ∀ call ∈ calls, ∀ chain ∈ call.body, ∀ call ∈ chain, IsArguments call.arguments := by
  fun_induction schemaCalls? cs generalizing calls with
  | case1 cs called begun call after found ih =>
      obtain ⟨later, rfl, read⟩ := exists_of_map_cons h
      exact List.forall_mem_cons.mpr ⟨(of_schemaCall? found).1, ih read⟩
  | case2 => simp at h
  | case3 =>
      simp only [Option.some.injEq, Prod.mk.injEq] at h
      simp [← h.1]
  | case4 => simp at h

/-- The calls on the schema that a text is made of. -/
def read? (text : String) : Option (List SchemaCall) :=
  (schemaCalls? text.toList).map Prod.fst

/-! ## Reading over an append -/

/-- A reader takes characters for these values, whatever follows them. -/
def Reads {α : Type} (read : List Char → Option (List α × List Char)) (cs : List Char)
    (found : List α) : Prop :=
  ∀ rest, read (cs ++ rest) = (read rest).map (Prod.map (found ++ ·) id)

namespace Reads

variable {α : Type} {read : List Char → Option (List α × List Char)} {cs : List Char}
  {found : List α}

theorem of_forall (h : ∀ rest, read (cs ++ rest) = read rest) : Reads read cs [] := by
  intro rest
  rw [h]
  rcases read rest with _ | ⟨later, last⟩ <;> rfl

theorem nil : Reads read [] [] :=
  of_forall fun _ => rfl

theorem append {ds : List Char} {later : List α} (first : Reads read cs found)
    (second : Reads read ds later) : Reads read (cs ++ ds) (found ++ later) := by
  intro rest
  rw [List.append_assoc, first, second]
  rcases read rest with _ | ⟨last, left⟩ <;> simp

/-- What a reader passes over can be left out in front. -/
theorem of_blanks {blanks : List Char} (h : Reads read (blanks ++ cs) found)
    (blank : Reads read blanks []) : Reads read cs found := by
  intro rest
  have passed := blank (cs ++ rest)
  rw [← List.append_assoc, h] at passed
  rw [passed]
  rcases read (cs ++ rest) with _ | ⟨later, last⟩ <;> rfl

theorem flatMap {β : Type} {f : β → List Char} {g : β → List α} {bs : List β}
    (each : ∀ b ∈ bs, Reads read (f b) (g b)) : Reads read (bs.flatMap f) (bs.flatMap g) := by
  induction bs with
  | nil => exact nil
  | cons b bs ih =>
      rw [List.forall_mem_cons] at each
      rw [List.flatMap_cons, List.flatMap_cons]
      exact each.1.append (ih each.2)

end Reads

theorem skipBlanks_blanks {blanks : List Char} (blank : ∀ c ∈ blanks, c.isWhitespace = true)
    (cs : List Char) : skipBlanks false (blanks ++ cs) = skipBlanks false cs := by
  induction blanks with
  | nil => rfl
  | cons c blanks ih =>
      rw [List.forall_mem_cons] at blank
      have other : c ≠ '/' := by
        rintro rfl
        exact absurd blank.1 (by decide)
      simp [skipBlanks, blank.1, other, ih blank.2]

section Blanks

variable {blanks : List Char} (blank : ∀ c ∈ blanks, c.isWhitespace = true)
include blank

theorem reads_calls?_blanks : Reads calls? blanks [] :=
  .of_forall fun rest => by rw [calls?.eq_1, skipBlanks_blanks blank, ← calls?.eq_1]

theorem reads_statements?_blanks : Reads statements? blanks [] :=
  .of_forall fun rest => by rw [statements?.eq_1, skipBlanks_blanks blank, ← statements?.eq_1]

theorem reads_schemaCalls?_blanks : Reads schemaCalls? blanks [] :=
  .of_forall fun rest => by rw [schemaCalls?.eq_1, skipBlanks_blanks blank, ← schemaCalls?.eq_1]

end Blanks

theorem span_word {word : String} (plain : word.toList.all Char.isAlphanum = true) {c : Char}
    (other : c.isAlphanum = false) (rest : List Char) :
    (word.toList ++ c :: rest).takeWhile Char.isAlphanum = word.toList ∧
      (word.toList ++ c :: rest).dropWhile Char.isAlphanum = c :: rest := by
  have each : ∀ d ∈ word.toList, d.isAlphanum = true := List.all_eq_true.mp plain
  rw [List.takeWhile_append_of_pos each, List.dropWhile_append_of_pos each]
  simp [other]

theorem call?_append {call : MethodCall} (h : call.Legible) (rest : List Char) :
    call? (call.method.toList ++ '(' :: (call.arguments.toList ++ ')' :: rest)) =
      some (call, rest) := by
  obtain ⟨method, opened⟩ := span_word h.word (c := '(') (by decide)
    (call.arguments.toList ++ ')' :: rest)
  simp [call?, method, opened, h.arguments.split?]

theorem reads_call {call : MethodCall} (h : call.Legible) : Reads calls? call.code.toList [call] := by
  intro rest
  have chars : call.code.toList ++ rest = '-' :: '>' ::
      (call.method.toList ++ '(' :: (call.arguments.toList ++ ')' :: rest)) := by
    simp [MethodCall.code]
  have visible (cs : List Char) : skipBlanks false ('-' :: '>' :: cs) = '-' :: '>' :: cs := by
    simp [skipBlanks]
  rw [chars, calls?.eq_1, visible]
  simp only
  rw [call?_append h]
  rfl

theorem calls?_semicolon (rest : List Char) : calls? (';' :: rest) = some ([], rest) := by
  have visible : skipBlanks false (';' :: rest) = ';' :: rest := by simp [skipBlanks]
  rw [calls?.eq_1, visible]
  rfl

theorem reads_statement {cs : List Char} {calls : List MethodCall} (h : Reads calls? cs calls) :
    Reads statements? ("$table".toList ++ (cs ++ [';'])) [calls] := by
  intro rest
  have visible (cs : List Char) :
      skipBlanks false ("$table".toList ++ cs) = "$table".toList ++ cs := by
    simp [skipBlanks]
  have chain : calls? (cs ++ ';' :: rest) = some (calls, rest) := by
    rw [h, calls?_semicolon]
    simp
  rw [List.append_assoc, List.append_assoc, List.singleton_append, statements?.eq_1, visible,
    after?_append]
  simp only
  rw [chain]
  rfl

theorem statements?_end (rest : List Char) :
    statements? ("\x7d);".toList ++ rest) = some ([], rest) := by
  have visible : skipBlanks false ("\x7d);".toList ++ rest) = "\x7d);".toList ++ rest := by
    simp [skipBlanks]
  rw [statements?.eq_1, visible, after?_append]
  simp [after?, List.dropPrefix?]

theorem schemaCall?_append {method : String} (word : method.toList.all Char.isAlphanum = true)
    (table : String) (rest : List Char) :
    schemaCall? (method.toList ++ '(' :: ((quote table).toList ++ rest)) =
      match after? ", function (Blueprint $table) \x7b" rest with
      | some body =>
        (statements? body).map fun (body, rest) => (.block method table body, rest)
      | none => (after? ");" rest).map fun rest => (.plain method table, rest) := by
  obtain ⟨front, opened⟩ := span_word word (c := '(') (by decide)
    ((quote table).toList ++ rest)
  simp only [schemaCall?, front, opened]
  rw [toList_quote_append]
  simp only [literalBody?_flatMap_append, String.ofList_toList]

theorem schemaCalls?_append {call : SchemaCall} {cs rest : List Char}
    (h : schemaCall? cs = some (call, rest)) :
    schemaCalls? ("Schema::".toList ++ cs) =
      (schemaCalls? rest).map (Prod.map (call :: ·) id) := by
  have visible : skipBlanks false ("Schema::".toList ++ cs) = "Schema::".toList ++ cs := by
    simp [skipBlanks]
  rw [schemaCalls?.eq_1, visible, after?_append]
  simp only
  rw [h]

theorem reads_block {method : String} (word : method.toList.all Char.isAlphanum = true)
    (table : String) {cs : List Char} {body : List (List MethodCall)}
    (h : Reads statements? cs body) :
    Reads schemaCalls? (("Schema::" ++ method ++ "(" ++ quote table ++
        ", function (Blueprint $table) \x7b").toList ++ (cs ++ "\x7d);".toList))
      [.block method table body] := by
  intro rest
  have inside : statements? (cs ++ ("\x7d);".toList ++ rest)) = some (body, rest) := by
    rw [h, statements?_end]
    simp
  have call : schemaCall? (method.toList ++ '(' :: ((quote table).toList ++
      (", function (Blueprint $table) \x7b".toList ++ (cs ++ ("\x7d);".toList ++ rest))))) =
        some (.block method table body, rest) := by
    rw [schemaCall?_append word, after?_append]
    simp only
    rw [inside]
    rfl
  have whole := schemaCalls?_append call
  simpa using whole

theorem reads_plain {method : String} (word : method.toList.all Char.isAlphanum = true)
    (table : String) :
    Reads schemaCalls? ("Schema::" ++ method ++ "(" ++ quote table ++ ");").toList
      [.plain method table] := by
  intro rest
  have blockless : after? ", function (Blueprint $table) \x7b" (");".toList ++ rest) = none := by
    simp [after?, List.dropPrefix?]
  have call : schemaCall? (method.toList ++ '(' :: ((quote table).toList ++ (");".toList ++ rest))) =
      some (.plain method table, rest) := by
    rw [schemaCall?_append word, blockless]
    simp only
    rw [after?_append]
    rfl
  have whole := schemaCalls?_append call
  simpa using whole

theorem read?_of_reads {text : String} {calls : List SchemaCall}
    (h : Reads schemaCalls? text.toList calls) : read? text = some calls := by
  have ended : schemaCalls? [] = some ([], []) := by
    rw [schemaCalls?.eq_1]
    rfl
  have whole := h []
  rw [List.append_nil, ended] at whole
  simp [read?, whole]

/-- What stands in the parentheses of a call is arguments. -/
theorem isArguments_of_read? {text : String} {calls : List SchemaCall}
    (h : read? text = some calls) :
    ∀ call ∈ calls, ∀ chain ∈ call.body, ∀ call ∈ chain, IsArguments call.arguments := by
  obtain ⟨⟨found, rest⟩, read, rfl⟩ := Option.map_eq_some_iff.mp h
  exact of_schemaCalls? read

end Code

end TableShift
