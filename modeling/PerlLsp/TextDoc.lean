import Mathlib.Data.UInt
import PerlLsp.TextLines
import PerlLsp.TextSync

/-! Ranges of perl-lsp-rs/src/textdoc.rs: `safe_range_mapping`, which maps a range only
when both endpoints are aligned, `byte_to_lsp_pos` and `apply_changes`. A rope is the list of its lines,
with their line breaks; where ropey divides a text is left open. The columns are summed
in a `u32`, which wraps as in a release build. -/
namespace PerlLsp.TextDoc
open Utf8 TextLines List

structure Rope where
  lines : List (List Char)
  some : lines ≠ []

namespace Rope
variable (rope : Rope)

def text : List Char := rope.lines.flatten

def lenChars : Nat := rope.text.length

def lenBytes : Nat := size rope.text

def lineToChar (line : Nat) : Nat := (rope.lines.take line).flatten.length

def charToByte (index : Nat) : Nat := size (rope.text.take index)

end Rope

/-- `Rope::byte_to_char`: the character that the byte belongs to. -/
def byteToChar : List Char → Nat → Nat
  | [], _ => 0
  | ch :: rest, byte => if byte < ch.utf8Size then 0 else byteToChar rest (byte - ch.utf8Size) + 1

/-- `Rope::char_to_line`; behind the last character it is the last line. -/
def charToLine : List (List Char) → Nat → Nat
  | [], _ => 0
  | [_], _ => 0
  | line :: rest, index =>
    if index < line.length then 0 else charToLine rest (index - line.length) + 1

inductive PosEnc where
  | utf16
  | utf8

structure Position where
  line : UInt32
  character : UInt32

structure Range where
  start : Position
  stop : Position

structure SafeRangeMapping where
  startChar : Nat
  endChar : Nat
  startByte : Nat
  endByte : Nat
deriving DecidableEq

def isForwardRange (range : Range) : Bool :=
  range.start.line < range.stop.line ||
    (range.start.line == range.stop.line && decide (range.start.character ≤ range.stop.character))

def lineContentCharLen (lineSlice : List Char) : Nat :=
  let chars := lineSlice.length
  let chars := if 0 < chars ∧ lineSlice[chars - 1]? = some '\n' then chars - 1 else chars
  if 0 < chars ∧ lineSlice[chars - 1]? = some '\r' then chars - 1 else chars

def lineContent (line : List Char) : List Char := line.take (lineContentCharLen line)

/-- `len_utf8` or `len_utf16`. -/
def width : PosEnc → Char → Nat
  | .utf8, ch => ch.utf8Size
  | .utf16, ch => lenUtf16 ch

/-- The character loop of `lsp_pos_to_char_with_alignment`, one for both encodings. -/
def alignedIndex (enc : PosEnc) (character : UInt32) : UInt32 → Nat → List Char → Nat × Bool
  | units, charIdx, [] => (charIdx, units == character)
  | units, charIdx, ch :: rest =>
    let next := units + UInt32.ofNat (width enc ch)
    if next = character then (charIdx + 1, true)
    else if character < next then (charIdx, false)
    else alignedIndex enc character next (charIdx + 1) rest

def lspPosToCharWithAlignment (rope : Rope) (pos : Position) (enc : PosEnc) : Nat × Bool :=
  match rope.lines[pos.line.toNat]? with
  | none => (rope.lenChars, true)
  | some line =>
    let found := alignedIndex enc pos.character 0 0 (lineContent line)
    (rope.lineToChar pos.line.toNat + found.1, found.2)

def safeRangeMapping (rope : Rope) (range : Range) (enc : PosEnc) : Option SafeRangeMapping :=
  if isForwardRange range = false then none
  else
    let start := lspPosToCharWithAlignment rope range.start enc
    let stop := lspPosToCharWithAlignment rope range.stop enc
    if start.2 = false ∨ stop.2 = false ∨ stop.1 < start.1 then none
    else
      some {
        startChar := start.1
        endChar := stop.1
        startByte := rope.charToByte (min start.1 rope.lenChars)
        endByte := rope.charToByte (min stop.1 rope.lenChars) }

def byteToLspPos (rope : Rope) (byte : Nat) (enc : PosEnc) : Position :=
  let charIdx := byteToChar rope.text (min byte rope.lenBytes)
  let line := charToLine rope.lines charIdx
  let lineSlice := (rope.lines[line]?).getD []
  let colChars := min (charIdx - rope.lineToChar line) (lineContentCharLen lineSlice)
  ⟨UInt32.ofNat line,
    ((lineSlice.take colChars).map fun ch => UInt32.ofNat (width enc ch)).sum⟩

def Endpoint (rope : Rope) (enc : PosEnc) (pos : Position) (before : List Char) : Prop :=
  ∃ line front back, rope.lines[pos.line.toNat]? = some line ∧ lineContent line = front ++ back ∧
    weight (width enc) front = pos.character.toNat ∧
    before = (rope.lines.take pos.line.toNat).flatten ++ front

def BeforeContent (rope : Rope) (pos : Position) : Prop :=
  pos.character = 0 ∧ ∃ line, rope.lines[pos.line.toNat]? = some line ∧ lineContent line ≠ []

theorem width_positive (enc : PosEnc) (ch : Char) : 0 < width enc ch := by
  cases enc with
  | utf8 => exact ch.utf8Size_pos
  | utf16 => exact len_utf16_positive ch

variable {enc : PosEnc}

theorem next_units {ch : Char} {units : UInt32} (narrow : units.toNat + width enc ch < 2 ^ 32) :
    (units + UInt32.ofNat (width enc ch)).toNat = units.toNat + width enc ch := by
  rw [UInt32.toNat_add, UInt32.toNat_ofNat']
  omega

theorem width_small (enc : PosEnc) (ch : Char) : width enc ch ≤ 4 := by
  cases enc with
  | utf8 => exact ch.utf8Size_le_four
  | utf16 => exact Nat.le_trans (len_utf16_bytes ch) ch.utf8Size_le_four

/-- Behind at least one character the loop stops at the column and finds it aligned. -/
theorem aligned_behind (enc : PosEnc) (character units : UInt32) (charIdx : Nat)
    (front back : List Char) (some : front ≠ [])
    (reach : units.toNat + weight (width enc) front = character.toNat) :
    alignedIndex enc character units charIdx (front ++ back) = (charIdx + front.length, true) := by
  induction front generalizing units charIdx with
  | nil => exact absurd rfl some
  | cons ch rest ih =>
    have limit := character.toNat_lt
    rw [weight_cons] at reach
    have next := @next_units enc ch units (by omega)
    rw [cons_append, alignedIndex]
    cases rest with
    | nil =>
      rw [weight_nil] at reach
      have here : units + UInt32.ofNat (width enc ch) = character :=
        UInt32.toNat_inj.mp (by omega)
      rw [if_pos here]
      rfl
    | cons second more =>
      have positive := width_positive enc second
      rw [weight_cons] at reach
      have apart : ¬ units + UInt32.ofNat (width enc ch) = character := by
        rintro rfl
        omega
      have below : ¬ character < units + UInt32.ofNat (width enc ch) := by
        rw [UInt32.lt_iff_toNat_lt]
        omega
      rw [if_neg apart, if_neg below, ih _ _ (cons_ne_nil _ _) (by rw [weight_cons]; omega),
        length_cons (a := ch)]
      simp only [Prod.mk.injEq, and_true]
      omega

/-- At column 0 the loop has no step to find the column: with content in the line the first
character already lies beyond it. -/
theorem aligned_start (enc : PosEnc) (content : List Char) :
    alignedIndex enc 0 0 0 content = (0, content.isEmpty) := by
  cases content with
  | nil => rfl
  | cons ch rest =>
    have positive := width_positive enc ch
    have small := width_small enc ch
    have next := @next_units enc ch 0 (by
      change 0 + width enc ch < 2 ^ 32
      omega)
    have beyond : (0 : UInt32) < 0 + UInt32.ofNat (width enc ch) := by
      rw [UInt32.lt_iff_toNat_lt]
      change 0 < _
      omega
    have apart : ¬ (0 : UInt32) + UInt32.ofNat (width enc ch) = 0 := by
      intro same
      rw [same] at beyond
      exact UInt32.lt_irrefl _ beyond
    rw [alignedIndex, if_neg apart, if_pos beyond]
    rfl

theorem content_part (line : List Char) : ∃ ending, line = lineContent line ++ ending :=
  ⟨_, (take_append_drop _ _).symm⟩

variable {range : Range} {rope : Rope}

theorem text_at {index : Nat} {line : List Char} (there : rope.lines[index]? = some line) :
    rope.text = (rope.lines.take index).flatten ++ line ++ (rope.lines.drop (index + 1)).flatten := by
  obtain ⟨inside, rfl⟩ := List.getElem?_eq_some_iff.mp there
  rw [Rope.text, append_assoc, ← flatten_cons, cons_getElem_drop_succ, ← flatten_append, take_append_drop]

section
variable {pos : Position} {before : List Char} (endpoint : Endpoint rope enc pos before)
include rope enc pos before endpoint

theorem Endpoint.part : ∃ after, rope.text = before ++ after := by
  obtain ⟨line, front, back, there, content, -, rfl⟩ := endpoint
  obtain ⟨ending, whole⟩ := content_part line
  refine ⟨back ++ ending ++ (rope.lines.drop (pos.line.toNat + 1)).flatten, ?_⟩
  rw [text_at there]
  conv_lhs => rw [whole, content]
  simp only [append_assoc]

theorem Endpoint.index : (lspPosToCharWithAlignment rope pos enc).1 = before.length ∧
      ((lspPosToCharWithAlignment rope pos enc).2 = true ↔ ¬ BeforeContent rope pos) := by
  obtain ⟨line, front, back, there, content, column, rfl⟩ := endpoint
  simp only [lspPosToCharWithAlignment, there, content]
  rw [length_append, Rope.lineToChar]
  by_cases bare : front = []
  · subst bare
    have zero : pos.character = 0 := UInt32.toNat_inj.mp column.symm
    rw [zero, aligned_start]
    refine ⟨rfl, ?_⟩
    rw [List.isEmpty_iff]
    constructor
    · rintro empty ⟨-, other, same, full⟩
      obtain rfl := Option.some.inj (there.symm.trans same)
      exact full (content.trans empty)
    · intro not
      by_contra full
      exact not ⟨zero, line, there, by rw [content]; exact full⟩
  · rw [aligned_behind enc pos.character 0 0 front back bare (by rw [← column]; exact Nat.zero_add _)]
    refine ⟨by rw [Nat.zero_add], iff_of_true rfl ?_⟩
    rintro ⟨zero, -⟩
    rw [zero] at column
    exact bare (weight_zero (width enc) (width_positive enc) front column)

end

theorem forward_cases (forward : isForwardRange range = true) :
    range.start.line.toNat < range.stop.line.toNat ∨ range.start.line = range.stop.line ∧
        range.start.character.toNat ≤ range.stop.character.toNat := by
  simpa [isForwardRange, UInt32.lt_iff_toNat_lt, UInt32.le_iff_toNat_le] using forward

/-- The endpoints of a forward range lie in the text in their order. -/
theorem endpoints_order {before before' : List Char} (forward : isForwardRange range = true)
    (start : Endpoint rope enc range.start before) (stop : Endpoint rope enc range.stop before') :
    before.length ≤ before'.length := by
  obtain ⟨line, front, back, there, content, column, rfl⟩ := start
  obtain ⟨line', front', back', there', content', column', rfl⟩ := stop
  rcases forward_cases forward with earlier | ⟨same, order⟩
  · obtain ⟨inside, here⟩ := List.getElem?_eq_some_iff.mp there
    obtain ⟨ending, whole⟩ := content_part line
    have short : front.length ≤ line.length := by
      rw [whole, content, length_append, length_append]
      omega
    have reach : (rope.lines.take (range.start.line.toNat + 1)).flatten.length ≤
        (rope.lines.take range.stop.line.toNat).flatten.length := by
      obtain ⟨more, grown⟩ : rope.lines.take (range.start.line.toNat + 1) <+:
        rope.lines.take range.stop.line.toNat := take_prefix_take_left (by omega)
      rw [← grown, flatten_append, length_append]
      exact Nat.le_add_right _ _
    rw [take_succ_eq_append_getElem inside, here, flatten_append, length_append] at reach
    simp only [flatten_cons, flatten_nil, append_nil] at reach
    rw [length_append, length_append]
    omega
  · rw [← same] at there' ⊢
    obtain rfl := Option.some.inj (there.symm.trans there')
    rw [length_append, length_append]
    have longer : front.length ≤ front'.length := by
      by_contra shorter
      rcases append_eq_append_iff.mp (content.symm.trans content') with
        ⟨more, grown, -⟩ | ⟨more, shrunk, -⟩
      · rw [grown, length_append] at shorter
        omega
      have extra : weight (width enc) more ≠ 0 := by
        intro zero
        rw [shrunk, weight_zero (width enc) (width_positive enc) more zero] at shorter
        simp at shorter
      rw [shrunk, weight_append] at column
      omega
    omega

theorem char_to_byte_boundary (rope : Rope) (index : Nat) :
    isCharBoundary rope.text (rope.charToByte index) = true :=
  (boundary_iff _ _).mpr ⟨_, _, (take_append_drop index rope.text).symm, rfl⟩

theorem char_to_byte_mono (rope : Rope) {first second : Nat} (order : first ≤ second) :
    rope.charToByte first ≤ rope.charToByte second := by
  rw [Rope.charToByte, Rope.charToByte, ← Nat.min_eq_left order, ← take_take]
  conv_rhs => rw [← take_append_drop first (rope.text.take second)]
  rw [size_append]
  exact Nat.le_add_right _ _

theorem char_to_byte_front {before after : List Char} (parts : rope.text = before ++ after) :
    rope.charToByte (min before.length rope.lenChars) = size before := by
  have inside : before.length ≤ rope.lenChars := by
    rw [Rope.lenChars, parts, length_append]
    omega
  rw [Nat.min_eq_left inside, Rope.charToByte, parts, take_left]

/-- What is mapped is in order and on boundaries. A forward range with exact endpoints is mapped to
them, unless one is column 0 of a line with content. -/
theorem safe_range_exact (rope : Rope) (range : Range) (enc : PosEnc) :
    (∀ mapping, safeRangeMapping rope range enc = some mapping →
      mapping.startByte ≤ mapping.endByte ∧ isCharBoundary rope.text mapping.startByte = true ∧
        isCharBoundary rope.text mapping.endByte = true) ∧
    (∀ before before', isForwardRange range = true → Endpoint rope enc range.start before →
      Endpoint rope enc range.stop before' →
      (safeRangeMapping rope range enc =
          some ⟨before.length, before'.length, size before, size before'⟩ ↔
        ¬ BeforeContent rope range.start ∧ ¬ BeforeContent rope range.stop)) := by
  constructor
  · intro mapping mapped
    unfold safeRangeMapping at mapped
    dsimp only at mapped
    split at mapped
    · cases mapped
    split at mapped
    · cases mapped
    rename_i ordered
    obtain ⟨-, -, order⟩ := not_or.mp ordered |>.imp id not_or.mp
    cases mapped
    refine ⟨char_to_byte_mono rope ?_, char_to_byte_boundary rope _, char_to_byte_boundary rope _⟩
    omega
  · intro before before' forward start stop
    obtain ⟨startIndex, startAligned⟩ := start.index
    obtain ⟨stopIndex, stopAligned⟩ := stop.index
    obtain ⟨after, parts⟩ := start.part
    obtain ⟨after', parts'⟩ := stop.part
    have order := endpoints_order forward start stop
    rw [← startAligned, ← stopAligned, safeRangeMapping, if_neg (by simp [forward])]
    dsimp only
    rw [startIndex, stopIndex, char_to_byte_front parts, char_to_byte_front parts']
    constructor
    · intro mapped
      split at mapped
      · cases mapped
      · rename_i aligned
        simpa [not_or] using (not_or.mp aligned).imp id fun rest => (not_or.mp rest).1
    · rintro ⟨first, second⟩
      rw [if_neg]
      simp [first, second, order]

def sampleRope : Rope := ⟨[['a', 'b', '\n'], ['c']], by decide⟩

-- The first character of the text is not mapped.
theorem first_character_unmapped :
    isForwardRange ⟨⟨0, 0⟩, ⟨0, 1⟩⟩ = true ∧ Endpoint sampleRope .utf16 ⟨0, 0⟩ [] ∧
      Endpoint sampleRope .utf16 ⟨0, 1⟩ ['a'] ∧
      safeRangeMapping sampleRope ⟨⟨0, 0⟩, ⟨0, 1⟩⟩ .utf16 = none :=
  ⟨by decide, ⟨_, [], ['a', 'b'], rfl, rfl, rfl, rfl⟩, ⟨_, ['a'], ['b'], rfl, rfl, by decide, rfl⟩,
    by decide⟩

theorem second_character_mapped :
    safeRangeMapping sampleRope ⟨⟨0, 1⟩, ⟨0, 2⟩⟩ .utf16 = some ⟨1, 2, 1, 2⟩ := by
  have later {column : UInt32} (inside : column ≠ 0) : ¬ BeforeContent sampleRope ⟨0, column⟩ :=
    fun first => inside first.1
  exact ((safe_range_exact sampleRope ⟨⟨0, 1⟩, ⟨0, 2⟩⟩ .utf16).2 ['a'] ['a', 'b'] (by decide)
    ⟨_, ['a'], ['b'], rfl, rfl, by decide, rfl⟩ ⟨_, ['a', 'b'], [], rfl, rfl, by decide, rfl⟩).mpr
    ⟨later (by decide), later (by decide)⟩

section Changes
variable (fromStr : List Char → Rope)

structure TextDocumentContentChangeEvent where
  range : Option Range
  text : List Char

def lspPosToChar (rope : Rope) (pos : Position) (enc : PosEnc) : Nat :=
  min (lspPosToCharWithAlignment rope pos enc).1 rope.lenChars

def rangeToChars (rope : Rope) (range : Range) (enc : PosEnc) : Nat × Nat :=
  (min (lspPosToChar rope range.start enc) rope.lenChars,
    min (lspPosToChar rope range.stop enc) rope.lenChars)

def Rope.remove (rope : Rope) (start stop : Nat) : Rope :=
  fromStr (rope.text.take start ++ rope.text.drop stop)

def Rope.insert (rope : Rope) (index : Nat) (text : List Char) : Rope :=
  fromStr (rope.text.take index ++ text ++ rope.text.drop index)

/-- One turn of the loop of `apply_changes`. -/
def applyChange (enc : PosEnc) (rope : Rope) (ch : TextDocumentContentChangeEvent) : Rope :=
  match ch.range with
  | some r =>
    if isForwardRange r = false then rope
    else
      let (s, e) := rangeToChars rope r enc
      if s ≤ e then (rope.remove fromStr s e).insert fromStr s ch.text else rope
  | none => fromStr (TextSync.stripUtf8Bom ch.text)

def applyChanges (enc : PosEnc) (rope : Rope) (changes : List TextDocumentContentChangeEvent) : Rope :=
  changes.foldl (applyChange fromStr enc) rope

/-- What a client's text becomes by changes whose ranges it addresses by places of its lines. -/
inductive Edits (enc : PosEnc) : List Char → List TextDocumentContentChangeEvent → List Char → Prop where
  | done (text : List Char) : Edits enc text [] text
  | whole (text new : List Char) {changes last}
      (rest : Edits enc (TextSync.stripUtf8Bom new) changes last) :
      Edits enc text (⟨none, new⟩ :: changes) last
  | ranged (front removed back new : List Char) (range : Range) {changes last}
      (forward : isForwardRange range = true)
      (start : Endpoint (fromStr (front ++ removed ++ back)) enc range.start front)
      (stop : Endpoint (fromStr (front ++ removed ++ back)) enc range.stop (front ++ removed))
      (rest : Edits enc (front ++ new ++ back) changes last) :
      Edits enc (front ++ removed ++ back) (⟨some range, new⟩ :: changes) last

theorem range_to_chars_exact {before before' : List Char}
    (start : Endpoint rope enc range.start before) (stop : Endpoint rope enc range.stop before') :
    rangeToChars rope range enc = (before.length, before'.length) := by
  obtain ⟨after, parts⟩ := start.part
  obtain ⟨after', parts'⟩ := stop.part
  have inside : before.length ≤ rope.lenChars := by simp [Rope.lenChars, parts]
  have inside' : before'.length ≤ rope.lenChars := by simp [Rope.lenChars, parts']
  simp [rangeToChars, lspPosToChar, start.index.1, stop.index.1, inside, inside']

/-- The document follows its client through all the changes. -/
theorem changes_followed (faithful : ∀ text, (fromStr text).text = text) {text last : List Char}
    {changes : List TextDocumentContentChangeEvent} (edits : Edits fromStr enc text changes last) :
    applyChanges fromStr enc (fromStr text) changes = fromStr last := by
  induction edits with
  | done text => rfl
  | whole text new rest ih => exact ih
  | ranged front removed back new range forward start stop rest ih =>
    have turn : applyChange fromStr enc (fromStr (front ++ removed ++ back)) ⟨some range, new⟩ =
        fromStr (front ++ new ++ back) := by
      simp only [applyChange, forward, range_to_chars_exact start stop, Rope.remove, Rope.insert, faithful]
      simp
    rw [applyChanges, foldl_cons, turn]
    exact ih

/-- Every text is one line. -/
def lineRope (text : List Char) : Rope := ⟨[text], cons_ne_nil text []⟩

theorem changes_followed_replaced : applyChanges lineRope .utf16 (lineRope ['a', 'b', 'c'])
    [⟨some ⟨⟨0, 1⟩, ⟨0, 2⟩⟩, ['x', 'y']⟩, ⟨none, [Char.ofNat 0xFEFF, 'z']⟩] = lineRope ['z'] :=
  changes_followed lineRope (fun _ => append_nil _) (.ranged ['a'] ['b'] ['c'] ['x', 'y'] _ (by decide)
      ⟨_, ['a'], ['b', 'c'], rfl, by decide, by decide, rfl⟩
      ⟨_, ['a', 'b'], ['c'], rfl, by decide, by decide, rfl⟩ (.whole _ _ (.done _)))

end Changes

end PerlLsp.TextDoc
