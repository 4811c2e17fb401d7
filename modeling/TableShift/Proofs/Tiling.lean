import Mathlib.Data.String.Basic
import TableShift.Proofs.TokenShapes

/-! # Lexemes tile their source

A script is a gap, a lexeme, a gap and so on up to a last gap: every character belongs to
one of them, and every lexeme knows the bytes it stands on. Merging compound keywords
keeps this: the gaps between the words of a compound become part of its slice.
-/

namespace TableShift

/-- The text between two byte offsets of a script. -/
def sourceSlice (script : String) (start stop : Nat) : String :=
  String.Pos.Raw.extract script ⟨start⟩ ⟨stop⟩

theorem byteLength_eq_utf8Len (cs : List Char) : byteLength cs = String.utf8Len cs := by
  induction cs with
  | nil => rfl
  | cons c cs ih => rw [byteLength, ih, String.utf8Len_cons, Nat.add_comm]

theorem byteLength_pos {cs : List Char} (h : cs ≠ []) : 0 < byteLength cs := by
  cases cs with
  | nil => contradiction
  | cons c cs =>
      have := c.utf8Size_pos
      simp only [byteLength]
      omega

theorem utf8ByteSize_eq_byteLength (script : String) :
    script.utf8ByteSize = byteLength script.toList := by
  rw [byteLength_eq_utf8Len, String.utf8Len_toList]

theorem sourceSlice_eq {script : String} {before slice after : List Char}
    (h : script.toList = before ++ (slice ++ after)) :
    sourceSlice script (byteLength before) (byteLength before + byteLength slice) =
      .ofList slice := by
  have text : script = .ofList (before ++ slice ++ after) := by
    rw [List.append_assoc, ← h, String.ofList_toList]
  rw [sourceSlice, text, byteLength_eq_utf8Len, byteLength_eq_utf8Len]
  exact String.extract_of_valid before slice after

theorem isValid_of_append {script : String} {before after : List Char}
    (h : script.toList = before ++ after) :
    String.Pos.Raw.IsValid script ⟨byteLength before⟩ := by
  rw [String.Pos.Raw.isValid_iff_exists_append]
  refine ⟨.ofList before, .ofList after, ?_, ?_⟩
  · rw [← String.ofList_append, ← h, String.ofList_toList]
  · rw [String.rawEndPos_ofList, byteLength_eq_utf8Len]

namespace Lexeme

/-! ## Gaps and lexemes in turn -/

/-- Lexemes with gaps around them that make up a text which begins at a byte offset. What
    a lexeme's slice has to do with its token and spelling is said by `shows_`. -/
inductive Tiles (shows_ : List Char → Token → String → Prop) :
    Nat → List Char → List Lexeme → Prop where
  | last (offset : Nat) {gap : List Char} (blank : Gap.Before [] gap) : Tiles shows_ offset gap []
  | next {offset : Nat} {gap slice rest : List Char} {l : Lexeme} {ls : List Lexeme}
      (blank : Gap.Before (slice ++ rest) gap) (start : l.start = offset + byteLength gap)
      (stop : l.stop = l.start + byteLength slice) (shown : shows_ slice l.token l.raw)
      (later : Tiles shows_ l.stop rest ls) : Tiles shows_ offset (gap ++ (slice ++ rest)) (l :: ls)

theorem tiles_of_scanFrom {offset : Nat} {cs : List Char} {ls : List Lexeme}
    (h : scanFrom offset cs = .ok ls) : Tiles Scan.Reads offset cs ls := by
  -- Along the text, a gap and a token at a time.
  induction size : cs.length using Nat.strongRecOn generalizing offset cs ls with
  | ind _ ih =>
      have gap := Gap.before_leading cs
      have whole := Gap.leading_append cs
      rcases exists_of_scanFrom h with ⟨ended, rfl⟩ | ⟨s, later, -, found, read, rfl⟩
      · rw [ended] at gap whole
        rw [List.append_nil] at whole
        exact whole ▸ .last offset gap
      · have shorter := Nat.lt_of_lt_of_le (Scan.length_lt_of_token? found)
          (Gap.length_leading_le cs)
        have split := (Scan.splits_of_token? found).1
        rw [← split] at gap whole
        have tiles := Tiles.next (l := ofScan offset (Gap.leading cs).1 s) gap rfl rfl
          (Scan.reads_of_token? found) (ih _ (size ▸ shorter) read rfl)
        rwa [whole] at tiles

/-! ## Compound keywords -/

/-- Words with gaps between them. -/
inductive Spaced : List String → List Char → Prop where
  | one (word : String) : Spaced [word] word.toList
  | cons (word : String) {words : List String} {gap slice : List Char}
      (blank : Gap.Before slice gap) (more : Spaced words slice) :
      Spaced (word :: words) (word.toList ++ (gap ++ slice))

/-- The slice of a lexeme, its token and its spelling: a token's, or the words of a
    compound keyword, which are kept as they are spelled with single blanks between them. -/
inductive Shows : List Char → Token → String → Prop where
  | token {slice : List Char} {token : Token} {raw : String} (reads : Scan.Reads slice token raw) :
      Shows slice token raw
  | compound {words spellings : List String} {slice : List Char} (listed : words ∈ compoundKeywords)
      (folded : spellings.map upperAscii = words) (spaced : Spaced spellings slice) :
      Shows slice (.keyword (joinWith " " words)) (joinWith " " spellings)

theorem Shows.ne_nil {slice : List Char} {token : Token} {raw : String}
    (h : Shows slice token raw) : slice ≠ [] := by
  cases h with
  | token reads => exact reads.ne_nil
  | @compound words spellings _ listed folded spaced =>
      have lettered : ∀ words ∈ compoundKeywords, upperAscii "" ∉ words := by decide
      have spelled : "" ∉ spellings := by
        intro member
        exact lettered words listed (folded ▸ List.mem_map_of_mem member)
      cases spaced <;> simp_all

theorem reads_keyword {slice : List Char} {word raw : String}
    (h : Scan.Reads slice (.keyword word) raw) (single : word ≠ "CHARACTER SET") :
    slice = raw.toList ∧ upperAscii raw = word ∧
      ∃ c cs, raw.toList = c :: cs ∧ Gap.inLine c = true := by
  generalize token : Token.keyword word = found at h
  cases h with
  | name | string | radix | number | mark => contradiction
  | @word cs nonempty letters =>
      refine ⟨by simp, ?_, ?_⟩
      · simp only [Scan.wordToken] at token
        split at token
        next => exact absurd (Token.keyword.inj token) single
        next =>
          split at token
          next => exact (Token.keyword.inj token).symm
          next => exact Token.noConfusion token
      · obtain ⟨c, cs, rfl⟩ := List.exists_cons_of_ne_nil nonempty
        refine ⟨c, cs, by simp, ?_⟩
        have letter := letters c List.mem_cons_self
        simp only [Gap.inLine, Bool.and_eq_true, bne_iff_ne]
        constructor <;> rintro rfl <;> revert letter <;> decide

/-- The lexemes of a compound keyword stand on one slice. -/
theorem exists_slice_of_startWith {words : List String} (nonempty : words ≠ [])
    (single : ∀ word ∈ words, word ≠ "CHARACTER SET") {offset : Nat} {cs : List Char}
    {ls : List Lexeme} (h : Tiles Scan.Reads offset cs ls) (starts : startWith words ls = true) :
    ∃ gap c slice rest, cs = gap ++ (c :: slice ++ rest) ∧ Gap.inLine c = true ∧
      Gap.Before (c :: slice ++ rest) gap ∧
      ((ls.take words.length).map Lexeme.raw).map upperAscii = words ∧
      Spaced ((ls.take words.length).map Lexeme.raw) (c :: slice) ∧
      (ofCompound words (ls.take words.length)).start = offset + byteLength gap ∧
      (ofCompound words (ls.take words.length)).stop =
        offset + byteLength gap + byteLength (c :: slice) ∧
      Tiles Scan.Reads (offset + byteLength gap + byteLength (c :: slice)) rest
        (ls.drop words.length) := by
  induction words generalizing offset cs ls with
  | nil => contradiction
  | cons word words ih =>
      rw [List.forall_mem_cons] at single
      cases h with
      | last => simp [startWith] at starts
      | @next offset gap slice rest l ls blank start stop shown later =>
          simp only [startWith, Bool.and_eq_true] at starts
          rw [Token.isKeyword_iff.mp starts.1] at shown
          obtain ⟨rfl, folded, c, tail, spelled, inside⟩ := reads_keyword shown single.1
          rw [start] at stop
          cases words with
          | nil =>
              refine ⟨gap, c, tail, rest, ?_⟩
              rw [← spelled]
              refine ⟨rfl, inside, blank, by simpa using folded, .one l.raw, ?_, ?_, ?_⟩
              · simpa [ofCompound] using start
              · simpa [ofCompound] using stop
              · simpa [stop] using later
          | cons second words =>
              -- The slice of the later words follows the first word and a gap.
              obtain ⟨inner, d, slice, rest, rfl, within, innerBlank, others, spaced, -, innerStop,
                tiles⟩ := ih (List.cons_ne_nil _ _) single.2 later starts.2
              have width : offset + byteLength gap + byteLength (l.raw.toList ++ (inner ++ d :: slice)) =
                  l.stop + byteLength inner + byteLength (d :: slice) := by
                rw [stop, byteLength_append, byteLength_append]
                omega
              refine ⟨gap, c, tail ++ (inner ++ d :: slice), rest, ?_⟩
              rw [← List.cons_append, ← spelled, width]
              refine ⟨by simp, inside, by simpa using blank, ?_, ?_, ?_, ?_, ?_⟩
              · simpa [folded] using others
              · exact .cons l.raw (innerBlank.of_append within) spaced
              · simpa [ofCompound] using start
              · cases ls with
                | nil => simp [startWith] at starts
                | cons => simpa [ofCompound] using innerStop
              · simpa using tiles

theorem tiles_mergeCompounds {offset : Nat} {cs : List Char} {ls : List Lexeme}
    (h : Tiles Scan.Reads offset cs ls) : Tiles Shows offset cs (mergeCompounds ls) := by
  fun_induction mergeCompounds ls generalizing offset cs with
  | case1 =>
      cases h with
      | last _ blank => exact .last offset blank
  | case2 l ls words found ih =>
      have listed := List.mem_of_find?_eq_some found
      have single : ∀ words ∈ compoundKeywords, ∀ word ∈ words, word ≠ "CHARACTER SET" := by decide
      have positive := length_pos_of_compound? found
      have starts : startWith words (l :: ls) = true := by
        simpa using List.find?_some (p := (startWith · (l :: ls))) found
      obtain ⟨gap, c, slice, rest, rfl, -, blank, folded, spaced, start, stop, later⟩ :=
        exists_slice_of_startWith (List.ne_nil_of_length_pos positive) (single words listed) h starts
      have dropped : (l :: ls).drop words.length = ls.drop (words.length - 1) :=
        List.drop_cons positive
      rw [dropped, ← stop] at later
      exact .next blank start (by rw [start, stop]) (.compound listed folded spaced) (ih later)
  | case3 l ls absent ih =>
      cases h with
      | next blank start stop shown later =>
          exact .next blank start stop (.token shown) (ih later)

/-! ## Reading off the tiles -/

section Tiles

variable {shows_ : List Char → Token → String → Prop} {offset : Nat} {cs : List Char}
  {ls : List Lexeme}

theorem Tiles.isChain (h : Tiles shows_ offset cs ls) :
    ls.IsChain fun l next => l.stop ≤ next.start := by
  induction h with
  | last => exact .nil
  | next _ _ _ _ later ih =>
      cases later with
      | last => exact .singleton _
      | next _ start => exact .cons_cons (by omega) ih

theorem Tiles.exists_slice (h : Tiles shows_ offset cs ls) {l : Lexeme} (member : l ∈ ls) :
    ∃ before slice after, cs = before ++ (slice ++ after) ∧
      l.start = offset + byteLength before ∧
      l.stop = offset + byteLength before + byteLength slice ∧ shows_ slice l.token l.raw := by
  induction h with
  | last => contradiction
  | @next offset gap slice rest first ls _ start stop shown later ih =>
      rw [start] at stop
      rcases List.mem_cons.mp member with rfl | member
      · exact ⟨gap, slice, rest, rfl, start, stop, shown⟩
      · obtain ⟨before, inner, after, rfl, innerStart, innerStop, inside⟩ := ih member
        refine ⟨gap ++ (slice ++ before), inner, after, by simp, ?_, ?_, inside⟩ <;>
          rw [byteLength_append, byteLength_append] <;> omega

/-- The spans of a text that ends at `stop` on which none of its lexemes stand. -/
def gapSpans (start stop : Nat) : List Lexeme → List (Nat × Nat)
  | [] => [(start, stop)]
  | l :: ls => (start, l.start) :: gapSpans l.stop stop ls

theorem Tiles.exists_gap (h : Tiles shows_ offset cs ls) {span : Nat × Nat}
    (member : span ∈ gapSpans offset (offset + byteLength cs) ls) :
    ∃ before gap after, cs = before ++ (gap ++ after) ∧
      span.1 = offset + byteLength before ∧ span.2 = offset + byteLength before + byteLength gap ∧
      Gap.Before after gap := by
  induction h with
  | last offset blank =>
      rw [gapSpans, List.mem_singleton] at member
      subst member
      exact ⟨[], _, [], by simp, rfl, rfl, blank⟩
  | @next offset gap slice rest l ls blank start stop _ later ih =>
      rw [start] at stop
      rcases List.mem_cons.mp member with rfl | member
      · exact ⟨[], gap, slice ++ rest, rfl, rfl, start, blank⟩
      · have whole : offset + byteLength (gap ++ (slice ++ rest)) = l.stop + byteLength rest := by
          rw [stop, byteLength_append, byteLength_append]
          omega
        rw [whole] at member
        obtain ⟨before, inner, after, rfl, innerStart, innerStop, inside⟩ := ih member
        refine ⟨gap ++ (slice ++ before), inner, after, by simp, ?_, ?_, inside⟩ <;>
          rw [byteLength_append, byteLength_append] <;> omega

end Tiles

/-- The lexemes of a script tile it. They stand on its characters one after the other, every
    slice shows its lexeme, and all that stands before, between and after them is a gap. -/
theorem tokenize_tiles {script : String} {lexemes : List Lexeme}
    (h : tokenize script = .ok lexemes) :
    (∀ l ∈ lexemes, l.start < l.stop ∧ l.stop ≤ script.utf8ByteSize ∧
      String.Pos.Raw.IsValid script ⟨l.start⟩ ∧ String.Pos.Raw.IsValid script ⟨l.stop⟩) ∧
    lexemes.IsChain (fun l next => l.stop ≤ next.start) ∧
    (∀ span ∈ gapSpans 0 script.utf8ByteSize lexemes,
      Gap.Before (sourceSlice script span.2 script.utf8ByteSize).toList
        (sourceSlice script span.1 span.2).toList) ∧
    ∀ l ∈ lexemes, Shows (sourceSlice script l.start l.stop).toList l.token l.raw := by
  have tiles : Tiles Shows 0 script.toList lexemes := by
    unfold tokenize at h
    split at h
    next read =>
      cases h
      exact tiles_mergeCompounds (tiles_of_scanFrom read)
    next => contradiction
  have size := utf8ByteSize_eq_byteLength script
  refine ⟨?_, tiles.isChain, ?_, ?_⟩
  · intro l member
    obtain ⟨before, slice, after, whole, start, stop, shown⟩ := tiles.exists_slice member
    rw [Nat.zero_add] at start stop
    have positive := byteLength_pos shown.ne_nil
    rw [whole, byteLength_append, byteLength_append] at size
    refine ⟨by omega, by omega, start ▸ isValid_of_append whole, ?_⟩
    rw [stop, ← byteLength_append]
    exact isValid_of_append (by rw [whole, List.append_assoc])
  · intro span member
    rw [size, ← Nat.zero_add (byteLength script.toList)] at member
    obtain ⟨before, gap, after, whole, start, stop, blank⟩ := tiles.exists_gap member
    rw [Nat.zero_add] at start stop
    have rest : sourceSlice script span.2 script.utf8ByteSize = .ofList after := by
      have ended : script.toList = (before ++ gap) ++ (after ++ []) := by simp [whole]
      rw [size, whole, stop, ← byteLength_append, ← List.append_assoc, byteLength_append _ after]
      exact sourceSlice_eq ended
    rw [rest, stop, start, sourceSlice_eq whole, String.toList_ofList, String.toList_ofList]
    exact blank
  · intro l member
    obtain ⟨before, slice, after, whole, start, stop, shown⟩ := tiles.exists_slice member
    rw [Nat.zero_add] at start stop
    rw [stop, start, sourceSlice_eq whole, String.toList_ofList]
    exact shown

theorem tokenize_tiles_notNull :
    tokenize "'it''s' é-- \nNot /* or */ Null" =
      .ok [⟨.literal (.string "it's"), "it's", 0, 7⟩, ⟨.identifier "é", "é", 8, 10⟩,
        ⟨.keyword "NOT NULL", "Not Null", 14, 31⟩] ∧
    Gap.Before "Not /* or */ Null".toList "-- \n".toList ∧
    Shows "'it''s'".toList (.literal (.string "it's")) "it's" ∧
    Shows "Not /* or */ Null".toList (.keyword "NOT NULL") "Not Null" := by
  have read : tokenize "'it''s' é-- \nNot /* or */ Null" =
      .ok [⟨.literal (.string "it's"), "it's", 0, 7⟩, ⟨.identifier "é", "é", 8, 10⟩,
        ⟨.keyword "NOT NULL", "Not Null", 14, 31⟩] := by
    decide +kernel
  obtain ⟨-, -, gaps, shown⟩ := tokenize_tiles read
  have between := gaps (10, 14) (by decide +kernel)
  have text := shown ⟨.literal (.string "it's"), "it's", 0, 7⟩ (by simp)
  have compound := shown ⟨.keyword "NOT NULL", "Not Null", 14, 31⟩ (by simp)
  exact ⟨read, between, text, compound⟩

end Lexeme

end TableShift
