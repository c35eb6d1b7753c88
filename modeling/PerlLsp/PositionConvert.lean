import PerlLsp.TextLines

/-! The UTF-16 converters of perl-position-tracking: the free functions of
convert.rs and `LineStartsCache` and `LineIndex` of line_index.rs. Only LF ends a
row; a CR directly before it belongs to the separator. A rope is the list of its
chunks, and its byte indexing is that of their concatenation. Slicing outside a
scalar boundary and indexing outside a list panic, which is `none` here. -/
namespace PerlLsp.PositionConvert
open Utf8 TextLines List Option

def utf16Len (text : List Char) : Nat := weight lenUtf16 text

section Convert

def splitInclusiveFrom : List Char → List Char → List (List Char)
  | current, [] => if current.isEmpty then [] else [current]
  | current, scalar :: rest =>
    if scalar = '\n' then (current ++ ['\n']) :: splitInclusiveFrom [] rest
    else splitInclusiveFrom (current ++ [scalar]) rest

/-- `text.split_inclusive('\n')` -/
def splitInclusive (text : List Char) : List (List Char) := splitInclusiveFrom [] text

def stripSuffix (scalar : Char) (line : List Char) : Option (List Char) :=
  if line.getLast? = some scalar then some line.dropLast else none

def lineContentEnd (line : List Char) : Nat :=
  match stripSuffix '\n' line with
  | some withoutLf => size ((stripSuffix '\r' withoutLf).getD withoutLf)
  | none => size line

-- The loop of `text_end_utf16_line_col` over the enumerated lines.
def lastLineCol : Nat → UInt32 × UInt32 → List (List Char) → Option (UInt32 × UInt32)
  | _, last, [] => some last
  | index, _, line :: rest => do
      let content ← slice line 0 (lineContentEnd line)
      lastLineCol (index + 1) (UInt32.ofNat index, UInt32.ofNat (utf16Len content)) rest

def textEndUtf16LineCol (text : List Char) : Option (UInt32 × UInt32) :=
  if text.isEmpty then some (0, 0)
  else if text.getLast? = some '\n' then some (UInt32.ofNat (splitInclusive text).length, 0)
  else lastLineCol 0 (0, 0) (splitInclusive text)

-- The loop of `offset_to_utf16_line_col`.
def offsetLineCol (text : List Char) (offset : Nat) :
    Nat → Nat → List (List Char) → Option (UInt32 × UInt32)
  | _, _, [] => textEndUtf16LineCol text
  | acc, lineIdx, line :: rest =>
    let next := acc + size line
    if offset < next then
      let rel := offset - acc
      if rel = 0 then some (UInt32.ofNat lineIdx, 0)
      else
        let contentEnd := lineContentEnd line
        let stop :=
          if contentEnd ≤ rel then contentEnd
          else if isCharBoundary line rel then rel
          else floorBoundary line rel
        (slice line 0 stop).map fun front => (UInt32.ofNat lineIdx, UInt32.ofNat (utf16Len front))
    else offsetLineCol text offset next (lineIdx + 1) rest

def offsetToUtf16LineCol (text : List Char) (offset : Nat) : Option (UInt32 × UInt32) :=
  if size text ≤ offset then textEndUtf16LineCol text
  else offsetLineCol text offset 0 0 (splitInclusive text)

/-- The `char_indices` loop of `utf16_line_col_to_offset`: the index it returns from, or `none` at
the end of the line. -/
def columnIndex (col : UInt32) : UInt32 → Nat → List Char → Option Nat
  | _, _, [] => none
  | up, byteIndex, scalar :: rest =>
    if up = col then some byteIndex
    else if up < col ∧ col < up + UInt32.ofNat (lenUtf16 scalar) then some byteIndex
    else
      let up := up + UInt32.ofNat (lenUtf16 scalar)
      if col < up then some byteIndex
      else columnIndex col up (byteIndex + scalar.utf8Size) rest

def lineColOffset (text : List Char) (line col : UInt32) : Nat → Nat → List (List Char) → Option Nat
  | _, _, [] => some (size text)
  | offset, curr, lineText :: rest =>
    if UInt32.ofNat curr = line then
      if col = 0 then some offset
      else
        let lineEnd := lineContentEnd lineText
        (slice lineText 0 lineEnd).map fun content =>
          match columnIndex col 0 0 content with
          | some byteIndex => offset + byteIndex
          | none => offset + min lineEnd (size text - offset)
    else lineColOffset text line col (offset + size lineText) (curr + 1) rest

def utf16LineColToOffset (text : List Char) (line col : UInt32) : Option Nat :=
  lineColOffset text line col 0 0 (splitInclusive text)

end Convert

section LineIndexes

def isUtf8Continuation (byte : UInt8) : Bool := byte &&& 0xC0 == 0x80

structure Rope where
  chunks : List (List Char)

def Rope.text (rope : Rope) : List Char := rope.chunks.flatten

def Rope.lenBytes (rope : Rope) : Nat := size rope.text

def Rope.byte (rope : Rope) (index : Nat) : Option UInt8 := (encode rope.text)[index]?

def lfStartsFrom : Nat → List UInt8 → List Nat
  | _, [] => []
  | offset, byte :: rest =>
    if byte = 0x0A then (offset + 1) :: lfStartsFrom (offset + 1) rest
    else lfStartsFrom (offset + 1) rest

def lfLineStarts (text : List Char) : List Nat := 0 :: lfStartsFrom 0 (encode text)

def lfStartsChunks : Nat → List (List Char) → List Nat
  | _, [] => []
  | offset, chunk :: rest =>
    lfStartsFrom offset (encode chunk) ++ lfStartsChunks (offset + size chunk) rest

def lfLineStartsRope (rope : Rope) : List Nat := 0 :: lfStartsChunks 0 rope.chunks

/-- `line_content_end` of line_index.rs, on the bytes of the text. -/
def indexedContentEnd (bytes : List UInt8) (lineStart separatorEnd : Nat) : Nat :=
  let stop := max (min separatorEnd bytes.length) (min lineStart bytes.length)
  if lineStart < stop ∧ bytes[stop - 1]? = some 0x0A then
    if lineStart < stop - 1 ∧ bytes[stop - 1 - 1]? = some 0x0D then stop - 1 - 1 else stop - 1
  else stop

def ropeLineContentEnd (rope : Rope) (lineStart separatorEnd : Nat) : Nat :=
  let start := min lineStart rope.lenBytes
  let stop := max (min separatorEnd rope.lenBytes) start
  if start < stop ∧ rope.byte (stop - 1) = some 0x0A then
    if start < stop - 1 ∧ rope.byte (stop - 1 - 1) = some 0x0D then stop - 1 - 1 else stop - 1
  else stop

/-- `binary_search` of a strictly increasing slice. -/
def binarySearch (items : List Nat) (target : Nat) : Except Nat Nat :=
  let index := (items.takeWhile fun item => decide (item < target)).length
  if items[index]? = some target then .ok index else .error index

-- `binary_search(&offset).unwrap_or_else(|i| i.saturating_sub(1))`
def lineOf (lineStarts : List Nat) (offset : Nat) : Nat :=
  match binarySearch lineStarts offset with
  | .ok line => line
  | .error insertion => insertion - 1

structure LineStartsCache where
  lineStarts : List Nat

namespace LineStartsCache

def new (text : List Char) : LineStartsCache := ⟨lfLineStarts text⟩

def newRope (rope : Rope) : LineStartsCache := ⟨lfLineStartsRope rope⟩

def normalizeTextOffset (text : List Char) (offset : Nat) : Nat :=
  floorBoundary text (min offset (size text))

def offsetToPosition (cache : LineStartsCache) (text : List Char) (offset : Nat) :
    Option (UInt32 × UInt32) := do
  let offset := normalizeTextOffset text offset
  let line := lineOf cache.lineStarts offset
  let lineStart ← cache.lineStarts[line]?
  let separatorEnd := cache.lineStarts[line + 1]?.getD (size text)
  let offset := min offset (indexedContentEnd (encode text) lineStart separatorEnd)
  let front ← slice text lineStart offset
  return (UInt32.ofNat line, UInt32.ofNat (utf16Len front))

/-- The column loop shared by both `position_to_offset` versions. -/
def columnBytes (character : Nat) : Nat → Nat → List Char → Nat
  | _, bytes, [] => bytes
  | units, bytes, scalar :: rest =>
    if character < units + lenUtf16 scalar then bytes
    else columnBytes character (units + lenUtf16 scalar) (bytes + scalar.utf8Size) rest

def positionToOffset (cache : LineStartsCache) (text : List Char) (line character : UInt32) :
    Option Nat :=
  if cache.lineStarts.length ≤ line.toNat then some (size text)
  else do
    let lineStart ← cache.lineStarts[line.toNat]?
    let separatorEnd := cache.lineStarts[line.toNat + 1]?.getD (size text)
    let lineEnd := indexedContentEnd (encode text) lineStart separatorEnd
    let lineText ← slice text lineStart lineEnd
    return lineStart + min (columnBytes character.toNat 0 0 lineText) (size lineText)

-- The loop of `normalize_rope_offset`, which inspects bytes.
def ropeFloor (rope : Rope) : Nat → Nat
  | 0 => 0
  | offset + 1 =>
    if offset + 1 < rope.lenBytes ∧
        (rope.byte (offset + 1)).map isUtf8Continuation = some true then
      ropeFloor rope offset
    else offset + 1

def normalizeRopeOffset (rope : Rope) (offset : Nat) : Nat :=
  ropeFloor rope (min offset rope.lenBytes)

def offsetToPositionRope (cache : LineStartsCache) (rope : Rope) (offset : Nat) :
    Option (UInt32 × UInt32) := do
  let offset := normalizeRopeOffset rope offset
  let line := lineOf cache.lineStarts offset
  let lineStart ← cache.lineStarts[line]?
  let separatorEnd := cache.lineStarts[line + 1]?.getD rope.lenBytes
  let offset := min offset (ropeLineContentEnd rope lineStart separatorEnd)
  let front ← slice rope.text lineStart offset
  return (UInt32.ofNat line, UInt32.ofNat (utf16Len front))

def positionToOffsetRope (cache : LineStartsCache) (rope : Rope) (line character : UInt32) :
    Option Nat :=
  if cache.lineStarts.length ≤ line.toNat then some rope.lenBytes
  else do
    let lineStart ← cache.lineStarts[line.toNat]?
    let separatorEnd := cache.lineStarts[line.toNat + 1]?.getD rope.lenBytes
    let lineEnd := ropeLineContentEnd rope lineStart separatorEnd
    let sliceStart := min lineStart rope.lenBytes
    let sliceEnd := max (min lineEnd rope.lenBytes) sliceStart
    let lineText ← slice rope.text sliceStart sliceEnd
    let bytes := columnBytes character.toNat 0 0 lineText
    return min (if lineStart + bytes < 2 ^ 64 then lineStart + bytes else rope.lenBytes)
      rope.lenBytes

end LineStartsCache

structure LineIndex where
  lineStarts : List Nat
  text : List Char

namespace LineIndex

def new (text : List Char) : LineIndex := ⟨lfLineStarts text, text⟩

variable (index : LineIndex)

def normalizeOffset (offset : Nat) : Nat :=
  floorBoundary index.text (min offset (size index.text))

def utf16Column (line byteOffset : Nat) : Option Nat :=
  match index.lineStarts[line]? with
  | none => some 0
  | some lineStart =>
    if size index.text < lineStart then some 0
    else if 2 ^ 64 ≤ lineStart + byteOffset then some 0
    else if size index.text < lineStart + byteOffset then some 0
    else (slice index.text lineStart (lineStart + byteOffset)).map utf16Len

def offsetToPosition (offset : Nat) : Option (UInt32 × UInt32) := do
  let offset := index.normalizeOffset offset
  let line := lineOf index.lineStarts offset
  let lineStart ← index.lineStarts[line]?
  let separatorEnd := index.lineStarts[line + 1]?.getD (size index.text)
  let offset := min offset (indexedContentEnd (encode index.text) lineStart separatorEnd)
  let column ← index.utf16Column line (offset - lineStart)
  return (UInt32.ofNat line, UInt32.ofNat column)

/-- `utf16_to_byte_offset`, after `currentUtf16` units and `byteOffset` bytes; at
the end of the line `byteOffset` is its length. -/
def utf16ToByteOffset (utf16Offset : Nat) : Nat → Nat → List Char → Option Nat
  | currentUtf16, byteOffset, [] => if currentUtf16 = utf16Offset then some byteOffset else none
  | currentUtf16, byteOffset, scalar :: rest =>
    if currentUtf16 = utf16Offset then some byteOffset
    else if utf16Offset < currentUtf16 + lenUtf16 scalar then none
    else utf16ToByteOffset utf16Offset (currentUtf16 + lenUtf16 scalar)
      (byteOffset + scalar.utf8Size) rest

/-- The outer `none` is a panic, the inner one the method's own answer. -/
def positionToOffset (index : LineIndex) (line character : UInt32) : Option (Option Nat) :=
  if index.lineStarts.length ≤ line.toNat then some none
  else do
    let lineStart ← index.lineStarts[line.toNat]?
    let separatorEnd := index.lineStarts[line.toNat + 1]?.getD (size index.text)
    let lineEnd := indexedContentEnd (encode index.text) lineStart separatorEnd
    let lineText ← slice index.text lineStart lineEnd
    return (utf16ToByteOffset character.toNat 0 0 lineText).map (lineStart + ·)

end LineIndex

end LineIndexes

open LineStartsCache

section Rows

def lfSplit : List Char → List Char × List Char × List Char
  | [] => ([], [], [])
  | scalar :: rest =>
    if scalar = '\n' then ([], ['\n'], rest)
    else if scalar = '\r' ∧ rest.head? = some '\n' then ([], ['\r', '\n'], rest.tail)
    else (scalar :: (lfSplit rest).1, (lfSplit rest).2.1, (lfSplit rest).2.2)

variable (text : List Char)

theorem lf_split_whole : text = (lfSplit text).1 ++ (lfSplit text).2.1 ++ (lfSplit text).2.2 := by
  induction text with
  | nil => rfl
  | cons scalar rest ih =>
    unfold lfSplit
    split
    · rename_i lf
      rw [lf]
      rfl
    split
    · rename_i _ crlf
      cases rest with
      | nil => simp at crlf
      | cons next more =>
        obtain ⟨rfl, head⟩ := crlf
        obtain rfl : next = '\n' := by simpa using head
        rfl
    · simpa using ih

theorem lf_split_last (none : (lfSplit text).2.1 = []) : (lfSplit text).2.2 = [] := by
  induction text with
  | nil => rfl
  | cons scalar rest ih =>
    unfold lfSplit at none ⊢
    split at none
    · simp at none
    split at none
    · simp at none
    · rename_i notLf notCrlf
      rw [if_neg notLf, if_neg notCrlf]
      exact ih none

def lfCut : Cut text where
  content := (lfSplit text).1
  separator := (lfSplit text).2.1
  rest := (lfSplit text).2.2
  whole := lf_split_whole text
  last := lf_split_last text

theorem lf_content : '\n' ∉ (lfCut text).content := by
  induction text with
  | nil => simp [lfCut, lfSplit]
  | cons scalar rest ih =>
    change '\n' ∉ (lfSplit (scalar :: rest)).1
    unfold lfSplit
    split
    · simp
    split
    · simp
    · rename_i notLf _
      simp only [mem_cons, not_or]
      exact ⟨fun same => notLf same.symm, ih⟩

theorem lf_separator : (lfCut text).separator = [] ∨
      (lfCut text).separator = ['\n'] ∧ (lfCut text).content.getLast? ≠ some '\r' ∨
      (lfCut text).separator = ['\r', '\n'] := by
  change (lfSplit text).2.1 = [] ∨ (lfSplit text).2.1 = ['\n'] ∧ (lfSplit text).1.getLast? ≠ some '\r' ∨
    (lfSplit text).2.1 = ['\r', '\n']
  induction text with
  | nil => simp [lfSplit]
  | cons scalar rest ih =>
    have whole := lf_split_whole rest
    unfold lfSplit
    split
    · simp
    split
    · simp
    rename_i notLf notCrlf
    rcases ih with bare | ⟨lf, kept⟩ | crlf
    · exact .inl bare
    · refine .inr (.inl ⟨lf, ?_⟩)
      cases content : (lfSplit rest).1 with
      | nil =>
        rw [content, lf] at whole
        have head : rest.head? = some '\n' := by rw [whole]; rfl
        simpa using fun same => notCrlf ⟨same, head⟩
      | cons next more =>
        rw [content] at kept
        simpa using kept
    · exact .inr (.inr crlf)

theorem split_inclusive_from (current text : List Char) (some : current ++ text ≠ []) :
    splitInclusiveFrom current text = (current ++ (lfCut text).content ++ (lfCut text).separator) ::
        splitInclusive (lfCut text).rest := by
  induction text generalizing current with
  | nil =>
    have nonempty : current ≠ [] := by simpa using some
    simp [splitInclusiveFrom, splitInclusive, nonempty, lfCut, lfSplit]
  | cons scalar rest ih =>
    change _ = (current ++ (lfSplit (scalar :: rest)).1 ++ (lfSplit (scalar :: rest)).2.1) ::
      splitInclusive (lfSplit (scalar :: rest)).2.2
    unfold splitInclusiveFrom lfSplit
    split
    · simp [splitInclusive]
    split
    · rename_i crlf
      cases rest with
      | nil => simp at crlf
      | cons next more =>
        obtain rfl : next = '\n' := by simpa using crlf.2
        rw [splitInclusiveFrom, if_pos rfl, crlf.1]
        simp [splitInclusive]
    · have tail := ih (current ++ [scalar]) (by simp)
      simpa [lfCut] using tail

theorem split_inclusive_cut (text : List Char) (some : text ≠ []) : splitInclusive text =
      ((lfCut text).content ++ (lfCut text).separator) :: splitInclusive (lfCut text).rest := by
  exact split_inclusive_from [] text (by simpa using some)

theorem strip_suffix_append (front : List Char) (scalar : Char) :
    stripSuffix scalar (front ++ [scalar]) = some front := by
  simp [stripSuffix]

theorem line_content_end_cut (text : List Char) :
    lineContentEnd ((lfCut text).content ++ (lfCut text).separator) = size (lfCut text).content := by
  have unbroken := lf_content text
  rcases lf_separator text with bare | ⟨lf, kept⟩ | crlf
  · have whole : stripSuffix '\n' (lfCut text).content = none := by
      rw [stripSuffix, if_neg]
      intro last
      exact unbroken (mem_of_getLast? last)
    rw [bare, append_nil, lineContentEnd, whole]
  · have strip : stripSuffix '\r' (lfCut text).content = none := by
      rw [stripSuffix, if_neg kept]
    rw [lf, lineContentEnd, strip_suffix_append]
    simp [strip]
  · have split : (lfCut text).content ++ ['\r', '\n'] = ((lfCut text).content ++ ['\r']) ++ ['\n'] := by
      simp
    rw [crlf, split, lineContentEnd, strip_suffix_append]
    simp [strip_suffix_append]

theorem lf_starts_append (offset : Nat) (left right : List UInt8) : lfStartsFrom offset (left ++ right) =
      lfStartsFrom offset left ++ lfStartsFrom (offset + left.length) right := by
  induction left generalizing offset with
  | nil => rfl
  | cons byte rest ih =>
    have width : offset + (byte :: rest).length = offset + 1 + rest.length := by
      rw [length_cons]
      omega
    simp only [cons_append, lfStartsFrom, ih, width]
    split <;> rfl

theorem lf_starts_unbroken (offset : Nat) (bytes : List UInt8) (unbroken : (0x0A : UInt8) ∉ bytes) :
    lfStartsFrom offset bytes = [] := by
  induction bytes generalizing offset with
  | nil => rfl
  | cons byte rest ih =>
    have other : byte ≠ 0x0A := fun same => unbroken (by simp [same])
    rw [lfStartsFrom, if_neg other, ih _ fun member => unbroken (by simp [member])]

theorem encode_unbroken (text : List Char) (unbroken : '\n' ∉ text) : (0x0A : UInt8) ∉ encode text := by
  induction text with
  | nil => simp
  | cons scalar rest ih =>
    rw [encode_cons, mem_append, not_or]
    refine ⟨?_, ih fun member => unbroken (by simp [member])⟩
    have other : scalar ≠ '\n' := fun same => unbroken (by simp [same])
    intro member
    by_cases low : scalar.val.toNat < 0x80
    · rw [encode_ascii scalar low, mem_singleton, ← UInt8.toNat_inj, UInt8.toNat_ofNat'] at member
      simp only [UInt8.reduceToNat] at member
      refine other (Char.ext (UInt32.toNat_inj.mp ?_))
      change scalar.val.toNat = 10
      omega
    · have high := encoded_high scalar (by omega) _ member
      simp at high

/-- One entry for each separated row. -/
theorem lf_starts_cut (offset : Nat) (text : List Char) : lfStartsFrom offset (encode text) =
      if (lfCut text).separator = [] then []
      else (offset + size (lfCut text).content + size (lfCut text).separator) ::
        lfStartsFrom (offset + size (lfCut text).content + size (lfCut text).separator)
          (encode (lfCut text).rest) := by
  have whole := (lfCut text).whole
  have plain := lf_starts_unbroken offset _ (encode_unbroken _ (lf_content text))
  conv_lhs => rw [whole, encode_append, encode_append, append_assoc, lf_starts_append, plain,
    nil_append, lf_starts_append]
  change lfStartsFrom (offset + size (lfCut text).content) (encode (lfCut text).separator) ++
    lfStartsFrom (offset + size (lfCut text).content + size (lfCut text).separator) _ = _
  rcases lf_separator text with bare | ⟨lf, -⟩ | crlf
  · rw [if_pos bare, (lfCut text).last bare, bare]
    rfl
  · rw [lf, if_neg (by simp)]
    rfl
  · rw [crlf, if_neg (by simp)]
    rfl

end Rows

section Starts

theorem lf_starts_row (text : List Char) (line : Nat) (offset : Nat) :
    (offset :: lfStartsFrom offset (encode text))[line]?.isSome = true ↔
      ∃ before tail, StartsAt lfCut text line before tail := by
  induction line generalizing text offset with
  | zero => exact ⟨fun _ => ⟨[], text, .first text⟩, fun _ => rfl⟩
  | succ line ih =>
    rw [getElem?_cons_succ, lf_starts_cut]
    by_cases final : (lfCut text).separator = []
    · rw [if_pos final]
      simp only [getElem?_nil, isSome_none, Bool.false_eq_true, false_iff]
      rintro ⟨before, tail, found⟩
      cases found with
      | next _ _ _ _ separated _ => exact separated final
    · rw [if_neg final, ih]
      constructor
      · rintro ⟨before, tail, found⟩
        exact ⟨_, tail, .next text line before tail final found⟩
      · rintro ⟨before, tail, found⟩
        cases found with
        | next _ _ before _ _ found => exact ⟨before, tail, found⟩

section
variable {text before tail : List Char} {line : Nat}
include text before tail line

theorem lf_starts_at (offset : Nat) (found : StartsAt lfCut text line before tail) :
    (offset :: lfStartsFrom offset (encode text))[line]? = some (offset + size before) ∧
      (offset :: lfStartsFrom offset (encode text))[line + 1]? =
        if (lfCut tail).separator = [] then none
        else some (offset + size before + size (lfCut tail).content + size (lfCut tail).separator) := by
  induction found generalizing offset with
  | first text =>
    refine ⟨rfl, ?_⟩
    rw [getElem?_cons_succ, lf_starts_cut]
    split
    · rfl
    · rfl
  | next text line before tail separated _ ih =>
    have inner := ih (offset + size (lfCut text).content + size (lfCut text).separator)
    have unfolded : offset :: lfStartsFrom offset (encode text) =
        offset :: (offset + size (lfCut text).content + size (lfCut text).separator) ::
          lfStartsFrom (offset + size (lfCut text).content + size (lfCut text).separator)
            (encode (lfCut text).rest) := by rw [lf_starts_cut, if_neg separated]
    rw [unfolded]
    simp only [getElem?_cons_succ, size_append, Nat.add_assoc] at inner ⊢
    exact inner

theorem line_starts_at (found : StartsAt lfCut text line before tail) :
    (lfLineStarts text)[line]? = some (size before) ∧ (lfLineStarts text)[line + 1]? =
        if (lfCut tail).separator = [] then none
        else some (size before + size (lfCut tail).content + size (lfCut tail).separator) := by
  have rows := lf_starts_at 0 found
  simpa [lfLineStarts] using rows

theorem start_sizes (found : StartsAt lfCut text line before tail) :
    size text = size before + size tail ∧ size tail = size (lfCut tail).content +
      (size (lfCut tail).separator + size (lfCut tail).rest) := by
  have whole := congrArg size (start_whole found)
  have parts := congrArg size (lfCut tail).whole
  rw [size_append] at whole
  rw [append_assoc, size_append, size_append] at parts
  exact ⟨whole, parts⟩

theorem separator_end_at (found : StartsAt lfCut text line before tail) :
    (lfLineStarts text)[line + 1]?.getD (size text) =
      size before + size (lfCut tail).content + size (lfCut tail).separator := by
  rw [(line_starts_at found).2]
  split
  · rename_i bare
    obtain ⟨whole, parts⟩ := start_sizes found
    rw [bare, (lfCut tail).last bare, size_nil] at parts
    rw [bare, size_nil, getD_none]
    omega
  · rfl

end

theorem lf_starts_chunks (offset : Nat) (chunks : List (List Char)) :
    lfStartsChunks offset chunks = lfStartsFrom offset (encode chunks.flatten) := by
  induction chunks generalizing offset with
  | nil => rfl
  | cons chunk rest ih =>
    rw [lfStartsChunks, ih, flatten_cons, encode_append, lf_starts_append]
    rfl

/-- Reading a rope chunk by chunk finds the starts of its text. -/
theorem rope_starts (rope : Rope) : lfLineStartsRope rope = lfLineStarts rope.text := by
  rw [lfLineStartsRope, lf_starts_chunks]
  rfl

theorem lf_starts_sorted (offset : Nat) (bytes : List UInt8) :
    (offset :: lfStartsFrom offset bytes).Pairwise (· < ·) := by
  induction bytes generalizing offset with
  | nil => simp [lfStartsFrom]
  | cons byte rest ih =>
    have later := ih (offset + 1)
    have above : ∀ start ∈ lfStartsFrom (offset + 1) rest, offset + 1 < start :=
      (pairwise_cons.mp later).1
    unfold lfStartsFrom
    split
    · refine pairwise_cons.mpr ⟨?_, later⟩
      intro start member
      rcases mem_cons.mp member with rfl | deeper
      · omega
      · have bound := above start deeper
        omega
    · refine pairwise_cons.mpr ⟨?_, (pairwise_cons.mp later).2⟩
      intro start member
      have bound := above start member
      omega

/-- The search names the row whose start is the last one not behind the offset. -/
theorem line_of_row (starts : List Nat) (sorted : starts.Pairwise (· < ·)) (offset line start : Nat)
    (here : starts[line]? = some start) (low : start ≤ offset)
    (high : ∀ next, starts[line + 1]? = some next → offset < next) : lineOf starts offset = line := by
  induction starts generalizing line with
  | nil => simp at here
  | cons first rest ih =>
    have above := (pairwise_cons.mp sorted).1
    have tailSorted := (pairwise_cons.mp sorted).2
    cases line with
    | zero =>
      obtain rfl : first = start := by simpa using here
      have beyond : ∀ next ∈ rest, offset < next := by
        intro next member
        cases rest with
        | nil => simp at member
        | cons second more =>
          have bound := high second rfl
          rcases mem_cons.mp member with rfl | deeper
          · exact bound
          · have order := (pairwise_cons.mp tailSorted).1 next deeper
            omega
      have stops : rest.takeWhile (fun item => decide (item < offset)) = [] := by
        cases rest with
        | nil => rfl
        | cons second more =>
          have bound := beyond second (by simp)
          simp only [takeWhile_cons, decide_eq_true_eq, ite_eq_right_iff]
          omega
      unfold lineOf binarySearch
      by_cases same : first = offset
      · subst same
        simp
      have less : first < offset := by omega
      have other : rest[0]? ≠ some offset := by
        intro equal
        have bound := beyond offset (mem_of_getElem? equal)
        omega
      simp [less, stops, other]
    | succ line =>
      have found : rest[line]? = some start := by simpa using here
      have bound := above start (mem_of_getElem? found)
      have inner := ih tailSorted line found (fun next later => high next (by simpa using later))
      have less : first < offset := by omega
      unfold lineOf binarySearch at inner ⊢
      simp only [takeWhile_cons, less, decide_true, ↓reduceIte, length_cons, getElem?_cons_succ] at inner ⊢
      by_cases hit : rest[(rest.takeWhile fun item => decide (item < offset)).length]? = some offset
      · simp only [hit, ↓reduceIte] at inner ⊢
        omega
      simp only [hit, ↓reduceIte] at inner ⊢
      -- An insertion point of zero would make the row's start a hit or smaller.
      have positive : (rest.takeWhile fun item => decide (item < offset)).length ≠ 0 := by
        intro zero
        have front : rest[0]? = some start := by
          rw [zero] at inner
          rwa [← inner] at found
        rw [zero, front] at hit
        have smaller : start < offset := by
          have other : start ≠ offset := fun same => hit (by rw [same])
          omega
        cases rest with
        | nil => simp at front
        | cons second more =>
          obtain rfl : second = start := by simpa using front
          simp [smaller] at zero
      omega

end Starts

section ContentEnd

theorem byte_behind (before content after : List Char) (index : Nat) :
    (encode (before ++ content ++ after))[size before + size content + index]? = (encode after)[index]? := by
  rw [← size_append, encode_append, getElem?_append_right (by unfold size; omega)]
  unfold size
  rw [Nat.add_sub_cancel_left]

theorem byte_last (before content after : List Char) (some : 0 < size content) :
    (encode (before ++ content ++ after))[size before + size content - 1]? = (encode content).getLast? := by
  have width : size before + size content - 1 = (encode before).length + (size content - 1) := by
    unfold size at some ⊢
    omega
  rw [width, append_assoc, encode_append, getElem?_append_right (by omega),
    Nat.add_sub_cancel_left, encode_append, getElem?_append_left (by unfold size at some ⊢; omega),
    getLast?_eq_getElem?]
  rfl

/-- Both byte tests cut exactly the row's separator off. -/
theorem indexed_content_end {text before tail : List Char} {line : Nat}
    (found : StartsAt lfCut text line before tail) : indexedContentEnd (encode text) (size before)
        (size before + size (lfCut tail).content + size (lfCut tail).separator) =
      size before + size (lfCut tail).content := by
  have whole : text = before ++ (lfCut tail).content ++ ((lfCut tail).separator ++ (lfCut tail).rest) :=
    line_whole (start_line found)
  have total : (encode text).length = size before + size (lfCut tail).content +
      (size (lfCut tail).separator + size (lfCut tail).rest) := by
    have sizes := congrArg size whole
    simp only [size_append] at sizes
    exact sizes
  have clamped : max (min (size before + size (lfCut tail).content + size (lfCut tail).separator)
      (encode text).length) (min (size before) (encode text).length) =
      size before + size (lfCut tail).content + size (lfCut tail).separator := by omega
  have lastIs (scalar : Char) (ascii : scalar.val.toNat < 0x80) (some : 0 < size (lfCut tail).content)
      (byte : (encode text)[size before + size (lfCut tail).content - 1]? =
        Option.some (UInt8.ofNat scalar.val.toNat)) :
      (lfCut tail).content.getLast? = Option.some scalar := by
    rw [whole, byte_last _ _ _ some] at byte
    exact (encode_getLast _ scalar ascii).mp byte
  unfold indexedContentEnd
  simp only [clamped]
  rcases lf_separator tail with bare | ⟨lf, kept⟩ | crlf
  · rw [bare, size_nil, Nat.add_zero, if_neg]
    rintro ⟨nonempty, byte⟩
    have last := lastIs '\n' (by decide) (by omega) byte
    exact lf_content tail (mem_of_getLast? last)
  · have width : size ['\n'] = 1 := rfl
    have here : (encode text)[size before + size (lfCut tail).content]? = some 0x0A := by
      rw [whole, lf]
      exact byte_behind _ _ _ 0
    rw [lf, width, Nat.add_sub_cancel, if_pos ⟨by omega, here⟩, if_neg]
    rintro ⟨nonempty, byte⟩
    exact kept (lastIs '\r' (by decide) (by omega) byte)
  · have width : size ['\r', '\n'] = 2 := rfl
    have lfHere : (encode text)[size before + size (lfCut tail).content + 1]? = some 0x0A := by
      rw [whole, crlf]
      exact byte_behind _ _ _ 1
    have crHere : (encode text)[size before + size (lfCut tail).content]? = some 0x0D := by
      rw [whole, crlf]
      exact byte_behind _ _ _ 0
    have back : size before + size (lfCut tail).content + 2 - 1 =
        size before + size (lfCut tail).content + 1 := by omega
    rw [crlf, width, back, if_pos ⟨by omega, lfHere⟩, Nat.add_sub_cancel, if_pos ⟨by omega, crHere⟩]

theorem rope_content_end (rope : Rope) (lineStart separatorEnd : Nat)
    (inside : lineStart ≤ rope.lenBytes) : ropeLineContentEnd rope lineStart separatorEnd =
      indexedContentEnd (encode rope.text) lineStart separatorEnd := by
  have total : (encode rope.text).length = rope.lenBytes := rfl
  have clamped : min lineStart rope.lenBytes = lineStart := by omega
  unfold ropeLineContentEnd indexedContentEnd
  simp only [total, clamped, Rope.byte]

theorem utf8_continuation (byte : UInt8) : isUtf8Continuation byte = isContinuation byte := by
  have every : ∀ value : Fin 256, isUtf8Continuation (UInt8.ofNat value.val) =
      isContinuation (UInt8.ofNat value.val) := by decide +kernel
  have here := every ⟨byte.toNat, byte.toNat_lt⟩
  simpa using here

/-- Inspecting bytes finds the same boundary as `is_char_boundary`. -/
theorem rope_floor (rope : Rope) (offset : Nat) (inside : offset ≤ rope.lenBytes) :
    ropeFloor rope offset = floorBoundary rope.text offset := by
  induction offset with
  | zero => rfl
  | succ offset ih =>
    unfold ropeFloor floorBoundary isCharBoundary
    change offset + 1 ≤ (encode rope.text).length at inside
    by_cases last : offset + 1 < (encode rope.text).length
    · have bounded : offset + 1 < rope.lenBytes := last
      obtain ⟨byte, here⟩ : ∃ byte, (encode rope.text)[offset + 1]? = some byte :=
        ⟨_, getElem?_eq_getElem last⟩
      have ropeHere : rope.byte (offset + 1) = some byte := here
      simp only [ropeHere, here, bounded, map_some, utf8_continuation]
      cases isContinuation byte with
      | true => simpa using ih (by omega)
      | false => simp
    · have ends : (encode rope.text)[offset + 1]? = none := getElem?_eq_none (by omega)
      have finished : ¬ offset + 1 < rope.lenBytes := last
      have total : offset + 1 = size rope.text := by
        unfold size
        omega
      rw [if_neg (fun both => finished both.1), ends]
      simp [total]

end ContentEnd

section OffsetToPosition

def Located (text : List Char) (offset line column : Nat) : Prop :=
  ∃ before tail front back, StartsAt lfCut text line before tail ∧ InRow lfCut before tail offset ∧
    (lfCut tail).content = front ++ back ∧ utf16Len front = column ∧
    size before + size front ≤ offset ∧
    ∀ scalar rest, back = scalar :: rest → offset < size before + size front + scalar.utf8Size

theorem longest_front (measure : Char → Nat) (bound : Nat) (left leftRest right rightRest : List Char)
    (same : left ++ leftRest = right ++ rightRest)
    (leftFits : weight measure left ≤ bound) (rightFits : weight measure right ≤ bound)
    (leftNext : ∀ scalar rest, leftRest = scalar :: rest → bound < weight measure left + measure scalar)
    (rightNext : ∀ scalar rest, rightRest = scalar :: rest →
      bound < weight measure right + measure scalar) : left = right := by
  rcases append_eq_append_iff.mp same with ⟨more, grown, tail⟩ | ⟨more, shrunk, tail⟩
  · cases more with
    | nil => simpa using grown.symm
    | cons scalar rest =>
      have past := leftNext scalar _ tail
      rw [grown, weight_append, weight_cons] at rightFits
      omega
  · cases more with
    | nil => simpa using shrunk
    | cons scalar rest =>
      have past := rightNext scalar _ tail
      rw [shrunk, weight_append, weight_cons] at leftFits
      omega

theorem located_unique {text : List Char} {offset line column line' column' : Nat}
    (left : Located text offset line column) (right : Located text offset line' column') :
    line = line' ∧ column = column' := by
  obtain ⟨before, tail, front, back, starts, row, content, rfl, fits, next⟩ := left
  obtain ⟨before', tail', front', back', starts', row', content', rfl, fits', next'⟩ := right
  obtain rfl := row_unique starts row starts' row'
  obtain ⟨rfl, rfl⟩ := start_unique starts starts'
  have equal : front = front' := by
    refine longest_front Char.utf8Size (offset - size before) front back front' back'
      (content.symm.trans content') ?_ ?_ ?_ ?_
    · rw [← size_weight]
      omega
    · rw [← size_weight]
      omega
    · intro scalar rest shape
      have bound := next scalar rest shape
      rw [← size_weight]
      omega
    · intro scalar rest shape
      have bound := next' scalar rest shape
      rw [← size_weight]
      omega
  rw [equal]
  exact ⟨rfl, rfl⟩

/-- What the indexed converters compute: the clamped offset cuts the row's content. -/
theorem clamped_front (text : List Char) (offset : Nat) :
    ∃ line before tail front back, StartsAt lfCut text line before tail ∧
      InRow lfCut before tail (floorBoundary text (min offset (size text))) ∧
      (lfCut tail).content = front ++ back ∧
      min (floorBoundary text (min offset (size text))) (size before + size (lfCut tail).content) =
        size before + size front ∧
      Located text offset line (utf16Len front) := by
  obtain ⟨line, before, tail, starts, row⟩ := @row_exists lfCut text offset
  obtain ⟨left, right, whole, floor, fits, next⟩ :=
    floor_boundary_front text (min offset (size text)) (by omega)
  have lineWhole := line_whole (start_line starts)
  have rowStart := row.1
  have total : size text = size before + size (lfCut tail).content +
      (size (lfCut tail).separator + size (lfCut tail).rest) := by
    have sizes := congrArg size lineWhole
    simpa only [size_append] using sizes
  -- The row's start is itself a boundary, so stepping back does not leave the row.
  have reached : size before ≤ size left := by
    by_contra short
    have parts : left ++ right = before ++ tail := whole.symm.trans (start_whole starts)
    rcases append_eq_append_iff.mp parts with ⟨more, grown, behind⟩ | ⟨more, shrunk, -⟩
    · cases more with
      | nil =>
        rw [grown, append_nil] at short
        omega
      | cons scalar rest =>
        have past := next scalar _ behind
        rw [grown, size_append, size_cons] at rowStart total
        omega
    · rw [shrunk, size_append] at short
      omega
  have floorRow : InRow lfCut before tail (size left) := by
    refine ⟨reached, ?_⟩
    intro separated
    have bound := row.2 separated
    omega
  rw [floor]
  by_cases past : size before + size (lfCut tail).content ≤ size left
  · refine ⟨line, before, tail, (lfCut tail).content, [], starts, floorRow, by simp, by omega,
      before, tail, (lfCut tail).content, [], starts, row, by simp, rfl, by omega, by simp⟩
  obtain ⟨front, back, content, grown, behind⟩ := split_middle before (lfCut tail).content
    ((lfCut tail).separator ++ (lfCut tail).rest) left right (lineWhole.symm.trans whole) reached
    (by omega)
  have width : size left = size before + size front := by rw [grown, size_append]
  refine ⟨line, before, tail, front, back, starts, floorRow, content, by omega,
    before, tail, front, back, starts, row, content, rfl, by omega, ?_⟩
  intro scalar rest shape
  rw [shape, cons_append] at behind
  have crossing := next scalar _ behind
  have sizes := congrArg size whole
  rw [size_append, behind, size_cons] at sizes
  omega

theorem line_of_start {text before tail : List Char} {line offset : Nat}
    (starts : StartsAt lfCut text line before tail) (row : InRow lfCut before tail offset) :
    lineOf (lfLineStarts text) offset = line := by
  obtain ⟨here, next⟩ := line_starts_at starts
  refine line_of_row (lfLineStarts text) (lf_starts_sorted 0 _) offset line _ here row.1 ?_
  intro start later
  rw [next] at later
  split at later
  · simp at later
  · rename_i separated
    obtain rfl := Option.some.inj later
    exact row.2 separated

theorem content_slice {text before tail front back : List Char} {line : Nat}
    (starts : StartsAt lfCut text line before tail) (content : (lfCut tail).content = front ++ back) :
    slice text (size before) (size before + size front) = some front ∧
      size before + size front ≤ size text := by
  have whole : text = before ++ front ++ (back ++ ((lfCut tail).separator ++ (lfCut tail).rest)) := by
    rw [line_whole (start_line starts), content]
    simp
  have sizes := congrArg size whole
  rw [size_append, size_append] at sizes
  refine ⟨?_, by omega⟩
  rw [whole]
  exact slice_parts _ _ _

theorem cache_offset_located (text : List Char) (offset : Nat) :
    ∃ line column, Located text offset line column ∧
      (LineStartsCache.new text).offsetToPosition text offset =
        some (UInt32.ofNat line, UInt32.ofNat column) := by
  obtain ⟨line, before, tail, front, back, starts, row, content, clamp, located⟩ :=
    clamped_front text offset
  have here := (line_starts_at starts).1
  have cut := (content_slice starts content).1
  have searched := line_of_start starts row
  refine ⟨line, utf16Len front, located, ?_⟩
  simp only [offsetToPosition, LineStartsCache.new, normalizeTextOffset,
    searched, here, separator_end_at starts, indexed_content_end starts, clamp, cut, bind, Option.bind,
    pure]

theorem rope_offset_located (rope : Rope) (offset : Nat) :
    ∃ line column, Located rope.text offset line column ∧ (newRope rope).offsetToPositionRope rope offset =
        some (UInt32.ofNat line, UInt32.ofNat column) := by
  obtain ⟨line, before, tail, front, back, starts, row, content, clamp, located⟩ :=
    clamped_front rope.text offset
  have here := (line_starts_at starts).1
  have cut := content_slice starts content
  have searched := line_of_start starts row
  have total : rope.lenBytes = size rope.text := rfl
  have floor := rope_floor rope (min offset rope.lenBytes) (by omega)
  have inside : size before ≤ rope.lenBytes := by omega
  refine ⟨line, utf16Len front, located, ?_⟩
  rw [total] at floor inside
  simp only [offsetToPositionRope, newRope, rope_starts,
    normalizeRopeOffset, total, floor, searched, here, separator_end_at starts,
    rope_content_end rope _ _ inside, indexed_content_end starts, clamp, cut.1, bind, Option.bind, pure]

theorem index_offset_located (text : List Char) (offset : Nat) (short : size text < 2 ^ 32) :
    ∃ line column, Located text offset line column ∧ (LineIndex.new text).offsetToPosition offset =
        some (UInt32.ofNat line, UInt32.ofNat column) := by
  obtain ⟨line, before, tail, front, back, starts, row, content, clamp, located⟩ :=
    clamped_front text offset
  have here := (line_starts_at starts).1
  have cut := content_slice starts content
  have searched := line_of_start starts row
  refine ⟨line, utf16Len front, located, ?_⟩
  have column : LineIndex.utf16Column ⟨lfLineStarts text, text⟩ line
      (size before + size front - size before) = some (utf16Len front) := by
    have start : ¬ size text < size before := by omega
    have narrow : ¬ 2 ^ 64 ≤ size before + size front := by omega
    have inside : ¬ size text < size before + size front := by omega
    simp only [LineIndex.utf16Column, Nat.add_sub_cancel_left, here, start, narrow, inside, ↓reduceIte,
      cut.1, map_some]
  simp only [LineIndex.offsetToPosition, LineIndex.new, LineIndex.normalizeOffset, searched, here,
    separator_end_at starts, indexed_content_end starts, clamp, column, bind, Option.bind, pure]

section
variable {text before tail : List Char} {line offset : Nat}
    (starts : StartsAt lfCut text line before tail) (row : InRow lfCut before tail offset)
include text before tail line offset starts row

theorem located_start (here : offset = size before) : Located text offset line 0 := by
  refine ⟨before, tail, [], (lfCut tail).content, starts, row, rfl, rfl, by simp [here], ?_⟩
  intro scalar rest _
  have positive := scalar.utf8Size_pos
  omega

theorem located_end (past : size before + size (lfCut tail).content ≤ offset) :
    Located text offset line (utf16Len (lfCut tail).content) :=
  ⟨before, tail, (lfCut tail).content, [], starts, row, by simp, rfl, past, by simp⟩

end

theorem floor_boundary_self (text : List Char) (offset : Nat)
    (boundary : isCharBoundary text offset = true) : floorBoundary text offset = offset := by
  cases offset with
  | zero => rfl
  | succ offset => rw [floorBoundary, if_pos boundary]

theorem slice_front (front back : List Char) : slice (front ++ back) 0 (size front) = some front := by
  have parts := slice_parts [] front back
  simpa using parts

variable (text : List Char)

/-- The segment walk stops in the row the offset lies in. -/
theorem offset_line_col_located (offset : Nat) (inside : offset < size text)
    (before tail : List Char) (line : Nat) (starts : StartsAt lfCut text line before tail)
    (low : size before ≤ offset) : ∃ row column, Located text offset row column ∧
      offsetLineCol text offset (size before) line (splitInclusive tail) =
        some (UInt32.ofNat row, UInt32.ofNat column) := by
  induction total : tail.length using Nat.strong_induction_on generalizing before tail line with
  | _ length ih =>
    subst total
    obtain ⟨whole, parts⟩ := start_sizes starts
    have some : tail ≠ [] := by
      rintro rfl
      rw [size_nil] at whole
      omega
    rw [split_inclusive_cut tail some, offsetLineCol]
    simp only [line_content_end_cut, size_append]
    by_cases here : offset < size before + (size (lfCut tail).content + size (lfCut tail).separator)
    · have row : InRow lfCut before tail offset := ⟨low, fun _ => by omega⟩
      rw [if_pos here]
      by_cases first : offset - size before = 0
      · rw [if_pos first]
        exact ⟨line, 0, located_start starts row (by omega), rfl⟩
      rw [if_neg first]
      by_cases past : size (lfCut tail).content ≤ offset - size before
      · rw [if_pos past, slice_front]
        exact ⟨line, _, located_end starts row (by omega), rfl⟩
      rw [if_neg past]
      have floors : (if isCharBoundary ((lfCut tail).content ++ (lfCut tail).separator)
            (offset - size before) = true then offset - size before
          else floorBoundary ((lfCut tail).content ++ (lfCut tail).separator) (offset - size before)) =
          floorBoundary ((lfCut tail).content ++ (lfCut tail).separator) (offset - size before) := by
        split
        · rename_i boundary
          exact (floor_boundary_self _ _ boundary).symm
        · rfl
      obtain ⟨left, right, segment, floor, fits, next⟩ := floor_boundary_front
        ((lfCut tail).content ++ (lfCut tail).separator) (offset - size before)
        (by rw [size_append]; omega)
      obtain ⟨_, back, content, rfl, behind⟩ := split_middle [] (lfCut tail).content
        (lfCut tail).separator left right (by simpa using segment) (by simp)
        (by rw [size_nil]; omega)
      rw [floors, floor, segment, slice_front]
      refine ⟨line, utf16Len left, ⟨before, tail, left, back, starts, row, content, rfl,
        by omega, ?_⟩, rfl⟩
      intro scalar rest shape
      rw [shape] at behind
      have crossing := next scalar _ behind
      omega
    · rw [if_neg here]
      have separated : (lfCut tail).separator ≠ [] := by
        intro bare
        rw [(lfCut tail).last bare, size_nil] at parts
        omega
      have further := ih _ (rest_shorter tail separated)
        (before ++ (lfCut tail).content ++ (lfCut tail).separator) (lfCut tail).rest (line + 1)
        (start_step starts separated) (by simp only [size_append]; omega) rfl
      simpa only [size_append, Nat.add_assoc] using further

theorem separated_last (separated : (lfCut text).separator ≠ []) :
    ((lfCut text).content ++ (lfCut text).separator).getLast? = some '\n' := by
  rw [getLast?_append_of_ne_nil _ separated]
  rcases lf_separator text with bare | ⟨lf, -⟩ | crlf
  · exact absurd bare separated
  · rw [lf]
    rfl
  · rw [crlf]
    rfl

theorem bare_last (bare : (lfCut text).separator = []) : text.getLast? ≠ some '\n' := by
  intro last
  have whole := (lfCut text).whole
  rw [bare, (lfCut text).last bare, append_nil, append_nil] at whole
  rw [whole] at last
  exact lf_content text (mem_of_getLast? last)

theorem final_row (before tail : List Char) (line : Nat)
    (starts : StartsAt lfCut text line before tail) (lf : tail.getLast? = some '\n') :
    StartsAt lfCut text (line + (splitInclusive tail).length) text [] := by
  induction total : tail.length using Nat.strong_induction_on generalizing before tail line with
  | _ length ih =>
    subst total
    have some : tail ≠ [] := by
      rintro rfl
      simp at lf
    have separated : (lfCut tail).separator ≠ [] := fun bare => bare_last tail bare lf
    have next := start_step starts separated
    rw [split_inclusive_cut tail some, length_cons]
    by_cases last : (lfCut tail).rest = []
    · rw [last] at next ⊢
      have whole := start_whole next
      rw [append_nil] at whole
      rw [← whole] at next
      exact next
    · have tailLf : (lfCut tail).rest.getLast? = Option.some '\n' := by
        rw [(lfCut tail).whole, getLast?_append_of_ne_nil _ last] at lf
        exact lf
      have further := ih _ (rest_shorter tail separated) _ _ _ next tailLf rfl
      rwa [show line + ((splitInclusive (lfCut tail).rest).length + 1) =
        line + 1 + (splitInclusive (lfCut tail).rest).length by omega]

theorem last_line_col_located (offset : Nat) (past : size text ≤ offset)
    (before tail : List Char) (line : Nat) (last : UInt32 × UInt32)
    (starts : StartsAt lfCut text line before tail) (some : tail ≠ [])
    (open_ : tail.getLast? ≠ Option.some '\n') :
    ∃ row column, Located text offset row column ∧ lastLineCol line last (splitInclusive tail) =
        Option.some (UInt32.ofNat row, UInt32.ofNat column) := by
  induction total : tail.length using Nat.strong_induction_on generalizing before tail line last with
  | _ length ih =>
    subst total
    obtain ⟨whole, parts⟩ := start_sizes starts
    rw [split_inclusive_cut tail some, lastLineCol, line_content_end_cut, slice_front]
    simp only [bind, Option.bind]
    by_cases bare : (lfCut tail).separator = []
    · have row : InRow lfCut before tail offset := ⟨by omega, fun separated => absurd bare separated⟩
      rw [(lfCut tail).last bare]
      exact ⟨line, _, located_end starts row (by omega), rfl⟩
    have rest : (lfCut tail).rest ≠ [] := by
      intro vacant
      have ends := separated_last tail bare
      have whole := (lfCut tail).whole
      rw [vacant, append_nil] at whole
      rw [← whole] at ends
      exact open_ ends
    refine ih _ (rest_shorter tail bare) _ _ _ _ (start_step starts bare) rest ?_ rfl
    intro lf
    rw [(lfCut tail).whole, getLast?_append_of_ne_nil _ rest] at open_
    exact open_ lf

theorem convert_offset_located (offset : Nat) : ∃ line column, Located text offset line column ∧
      offsetToUtf16LineCol text offset = some (UInt32.ofNat line, UInt32.ofNat column) := by
  unfold offsetToUtf16LineCol
  split
  · rename_i past
    unfold textEndUtf16LineCol
    split
    · rename_i vacant
      obtain rfl := List.isEmpty_iff.mp vacant
      have row : InRow lfCut [] [] offset := ⟨Nat.zero_le _, fun separated => absurd rfl separated⟩
      exact ⟨0, _, located_end (.first []) row (Nat.zero_le _), rfl⟩
    rename_i some
    split
    · rename_i lf
      have final := final_row text [] text 0 (.first text) lf
      have row : InRow lfCut text [] offset := ⟨past, fun separated => absurd rfl separated⟩
      rw [Nat.zero_add] at final
      exact ⟨_, _, located_end final row past, rfl⟩
    · rename_i open_
      exact last_line_col_located text offset past [] text 0 _ (.first text)
        (fun vacant => some (List.isEmpty_iff.mpr vacant)) open_
  · rename_i inside
    exact offset_line_col_located text offset (by omega) [] text 0 (.first text) (Nat.zero_le _)

end OffsetToPosition

section PositionToOffset

structure Reaches (content : List Char) (column : Nat) (front back : List Char) : Prop where
  parts : content = front ++ back
  fits : utf16Len front ≤ column
  next : ∀ scalar rest, back = scalar :: rest → column < utf16Len front + lenUtf16 scalar

theorem utf16_len_cons (scalar : Char) (rest : List Char) :
    utf16Len (scalar :: rest) = lenUtf16 scalar + utf16Len rest := weight_cons _ _ _

theorem utf16_len_bytes (text : List Char) : utf16Len text ≤ size text := by
  induction text with
  | nil => exact le_rfl
  | cons scalar rest ih =>
    have width := len_utf16_bytes scalar
    rw [utf16_len_cons, size_cons]
    omega

theorem reaches_exists (content : List Char) (column : Nat) :
    ∃ front back, Reaches content column front back := by
  induction content generalizing column with
  | nil => exact ⟨[], [], rfl, Nat.zero_le _, by simp⟩
  | cons scalar rest ih =>
    by_cases fits : lenUtf16 scalar ≤ column
    · obtain ⟨front, back, reached⟩ := ih (column - lenUtf16 scalar)
      refine ⟨scalar :: front, back, by rw [reached.parts]; rfl, ?_, ?_⟩
      · have bound := reached.fits
        rw [utf16_len_cons]
        omega
      · intro other more shape
        have bound := reached.next other more shape
        rw [utf16_len_cons]
        omega
    · refine ⟨[], scalar :: rest, rfl, Nat.zero_le _, ?_⟩
      intro other more shape
      obtain ⟨rfl, rfl⟩ := List.cons.inj shape
      omega

theorem reaches_unique {content front back front' back' : List Char} {column : Nat}
    (left : Reaches content column front back) (right : Reaches content column front' back') :
    front = front' :=
  longest_front lenUtf16 column front back front' back' (left.parts.symm.trans right.parts)
    left.fits right.fits left.next right.next

def Placed (text : List Char) (line column offset : Nat) : Prop :=
  (∃ before tail front back, StartsAt lfCut text line before tail ∧
    Reaches (lfCut tail).content column front back ∧ offset = size before + size front) ∨
  ((¬ ∃ before tail, StartsAt lfCut text line before tail) ∧ offset = size text)

theorem placed_unique {text : List Char} {line column offset offset' : Nat}
    (left : Placed text line column offset) (right : Placed text line column offset') :
    offset = offset' := by
  rcases left with ⟨before, tail, front, back, starts, reached, rfl⟩ | ⟨absent, rfl⟩
  · rcases right with ⟨before', tail', front', back', starts', reached', rfl⟩ | ⟨absent, rfl⟩
    · obtain ⟨rfl, rfl⟩ := start_unique starts starts'
      rw [reaches_unique reached reached']
    · exact absurd ⟨before, tail, starts⟩ absent
  · rcases right with ⟨before', tail', front', back', starts', -, -⟩ | ⟨-, rfl⟩
    · exact absurd ⟨before', tail', starts'⟩ absent
    · rfl

theorem column_bytes_reaches (column : Nat) (front back : List Char) (units bytes : Nat)
    (fits : units + utf16Len front ≤ column)
    (next : ∀ scalar rest, back = scalar :: rest → column < units + utf16Len front + lenUtf16 scalar) :
    columnBytes column units bytes (front ++ back) = bytes + size front := by
  induction front generalizing units bytes with
  | nil =>
    cases back with
    | nil => rfl
    | cons scalar rest =>
      have stop := next scalar rest rfl
      change column < units + 0 + lenUtf16 scalar at stop
      rw [nil_append, columnBytes, if_pos (by omega)]
      rfl
  | cons scalar rest ih =>
    rw [utf16_len_cons] at fits
    rw [cons_append, columnBytes, if_neg (by omega),
      ih (units + lenUtf16 scalar) (bytes + scalar.utf8Size) (by omega), size_cons]
    · omega
    · intro other more shape
      have stop := next other more shape
      rw [utf16_len_cons] at stop
      omega

theorem units_advance (up : UInt32) (scalar : Char) (bound : up.toNat + lenUtf16 scalar < 2 ^ 32) :
    (up + UInt32.ofNat (lenUtf16 scalar)).toNat = up.toNat + lenUtf16 scalar := by
  rw [UInt32.toNat_add, UInt32.toNat_ofNat']
  omega

theorem column_index_reaches (col : UInt32) (front back : List Char) (up : UInt32) (byteIndex : Nat)
    (narrow : up.toNat + utf16Len (front ++ back) < 2 ^ 32)
    (fits : up.toNat + utf16Len front ≤ col.toNat) (next : ∀ scalar rest, back = scalar :: rest →
      col.toNat < up.toNat + utf16Len front + lenUtf16 scalar) :
    columnIndex col up byteIndex (front ++ back) =
      if back = [] then none else some (byteIndex + size front) := by
  induction front generalizing up byteIndex with
  | nil =>
    cases back with
    | nil => rfl
    | cons scalar rest =>
      have stop := next scalar rest rfl
      rw [nil_append, utf16_len_cons] at narrow
      change col.toNat < up.toNat + 0 + lenUtf16 scalar at stop
      change up.toNat + 0 ≤ col.toNat at fits
      rw [nil_append, columnIndex, if_neg (cons_ne_nil _ _)]
      by_cases same : up = col
      · rw [if_pos same]
        rfl
      have away : up.toNat ≠ col.toNat := fun equal => same (UInt32.toNat_inj.mp equal)
      rw [if_neg same, if_pos]
      · rfl
      · rw [UInt32.lt_iff_toNat_lt, UInt32.lt_iff_toNat_lt, units_advance up scalar (by omega)]
        omega
  | cons scalar rest ih =>
    have positive := len_utf16_positive scalar
    rw [cons_append, utf16_len_cons] at narrow
    rw [utf16_len_cons] at fits
    have sum := units_advance up scalar (by omega)
    have ahead : ¬ up = col := by
      rintro rfl
      omega
    have within : ¬ (up < col ∧ col < up + UInt32.ofNat (lenUtf16 scalar)) := by
      rw [UInt32.lt_iff_toNat_lt (a := col)]
      omega
    have beyond : ¬ col < up + UInt32.ofNat (lenUtf16 scalar) := by
      rw [UInt32.lt_iff_toNat_lt]
      omega
    rw [cons_append, columnIndex, if_neg ahead, if_neg within]
    simp only [beyond, ↓reduceIte]
    rw [ih (up + UInt32.ofNat (lenUtf16 scalar)) (byteIndex + scalar.utf8Size) (by omega) (by omega)]
    · rw [size_cons, Nat.add_assoc]
    · intro other more shape
      have stop := next other more shape
      rw [utf16_len_cons] at stop
      omega

theorem byte_offset_reaches (column : Nat) (front back : List Char) (units bytes : Nat)
    (fits : units + utf16Len front ≤ column)
    (next : ∀ scalar rest, back = scalar :: rest → column < units + utf16Len front + lenUtf16 scalar) :
    LineIndex.utf16ToByteOffset column units bytes (front ++ back) =
      if units + utf16Len front = column then some (bytes + size front) else none := by
  induction front generalizing units bytes with
  | nil =>
    change _ = if units + 0 = column then some (bytes + 0) else none
    cases back with
    | nil => rfl
    | cons scalar rest =>
      have stop := next scalar rest rfl
      change column < units + 0 + lenUtf16 scalar at stop
      rw [nil_append, LineIndex.utf16ToByteOffset]
      by_cases same : units = column
      · rw [if_pos same, if_pos (by omega), Nat.add_zero]
      · rw [if_neg same, if_pos (by omega), if_neg (by omega)]
  | cons scalar rest ih =>
    have positive := len_utf16_positive scalar
    rw [utf16_len_cons] at fits
    rw [cons_append, LineIndex.utf16ToByteOffset, if_neg (by omega), if_neg (by omega),
      ih (units + lenUtf16 scalar) (bytes + scalar.utf8Size) (by omega), utf16_len_cons, size_cons]
    · simp only [Nat.add_assoc]
    · intro other more shape
      have stop := next other more shape
      rw [utf16_len_cons] at stop
      omega

theorem starts_length (text : List Char) (line : Nat) :
    (lfLineStarts text).length ≤ line ↔ ¬ ∃ before tail, StartsAt lfCut text line before tail := by
  rw [← lf_starts_row text line 0]
  change (lfLineStarts text).length ≤ line ↔ ¬ (lfLineStarts text)[line]?.isSome = true
  simp

theorem cache_position_placed (text : List Char) (line character : UInt32) :
    ∃ offset, Placed text line.toNat character.toNat offset ∧
      (LineStartsCache.new text).positionToOffset text line character = some offset := by
  by_cases absent : (lfLineStarts text).length ≤ line.toNat
  · refine ⟨size text, .inr ⟨(starts_length text _).mp absent, rfl⟩, ?_⟩
    simp [positionToOffset, LineStartsCache.new, absent]
  obtain ⟨before, tail, starts⟩ := not_not.mp (mt (starts_length text _).mpr absent)
  obtain ⟨front, back, reached⟩ := reaches_exists (lfCut tail).content character.toNat
  have here := (line_starts_at starts).1
  have whole := (content_slice starts (append_nil (lfCut tail).content).symm).1
  have column := column_bytes_reaches character.toNat front back 0 0 (by simpa using reached.fits)
    (by simpa using reached.next)
  rw [← reached.parts, Nat.zero_add] at column
  have inside : size front ≤ size (lfCut tail).content := by
    rw [reached.parts, size_append]
    omega
  refine ⟨size before + size front, .inl ⟨before, tail, front, back, starts, reached, rfl⟩, ?_⟩
  simp only [positionToOffset, LineStartsCache.new, absent, ↓reduceIte, here,
    separator_end_at starts, indexed_content_end starts, whole, column, bind, Option.bind, pure,
    Nat.min_eq_left inside]

theorem rope_position_placed (rope : Rope) (line character : UInt32) (short : size rope.text < 2 ^ 32) :
    ∃ offset, Placed rope.text line.toNat character.toNat offset ∧
      (newRope rope).positionToOffsetRope rope line character = some offset := by
  have total : rope.lenBytes = size rope.text := rfl
  by_cases absent : (lfLineStarts rope.text).length ≤ line.toNat
  · refine ⟨size rope.text, .inr ⟨(starts_length _ _).mp absent, rfl⟩, ?_⟩
    simp [positionToOffsetRope, newRope, rope_starts, absent, total]
  obtain ⟨before, tail, starts⟩ := not_not.mp (mt (starts_length rope.text _).mpr absent)
  obtain ⟨front, back, reached⟩ := reaches_exists (lfCut tail).content character.toNat
  have here := (line_starts_at starts).1
  have whole := content_slice starts (append_nil (lfCut tail).content).symm
  have column := column_bytes_reaches character.toNat front back 0 0 (by simpa using reached.fits)
    (by simpa using reached.next)
  rw [← reached.parts, Nat.zero_add] at column
  have inside := (content_slice starts reached.parts).2
  have start : size before ≤ size rope.text := by omega
  have first : min (size before) (size rope.text) = size before := by omega
  have last : max (min (size before + size (lfCut tail).content) (size rope.text)) (size before) =
      size before + size (lfCut tail).content := by omega
  have narrow : size before + size front < 2 ^ 64 := by omega
  refine ⟨size before + size front, .inl ⟨before, tail, front, back, starts, reached, rfl⟩, ?_⟩
  simp only [positionToOffsetRope, newRope, rope_starts, absent,
    ↓reduceIte, here, total, separator_end_at starts, rope_content_end rope _ _ start,
    indexed_content_end starts, first, last, whole.1, column, narrow, bind, Option.bind, pure,
    Nat.min_eq_left inside]

/-- The exact index answers where the column falls between two scalars. -/
theorem index_position_addressed (text : List Char) (line character : UInt32) :
    ∃ answer, (LineIndex.new text).positionToOffset line character = some answer ∧
      (∀ offset, answer = some offset ↔ Address lfCut lenUtf16 text line.toNat character.toNat offset) ∧
      ∀ offset, answer = some offset → Placed text line.toNat character.toNat offset := by
  by_cases absent : (lfLineStarts text).length ≤ line.toNat
  · refine ⟨none, by simp [LineIndex.positionToOffset, LineIndex.new, absent], ?_, by simp⟩
    intro offset
    simp only [reduceCtorEq, false_iff]
    rintro ⟨before, front, back, after, found, -, -⟩
    obtain ⟨tail, starts, -, -⟩ := line_start found
    exact (starts_length text _).mp absent ⟨before, tail, starts⟩
  obtain ⟨before, tail, starts⟩ := not_not.mp (mt (starts_length text _).mpr absent)
  obtain ⟨front, back, reached⟩ := reaches_exists (lfCut tail).content character.toNat
  have here := (line_starts_at starts).1
  have whole := (content_slice starts (append_nil (lfCut tail).content).symm).1
  have column := byte_offset_reaches character.toNat front back 0 0 (by simpa using reached.fits)
    (by simpa using reached.next)
  rw [← reached.parts] at column
  refine ⟨if utf16Len front = character.toNat then some (size before + size front) else none, ?_, ?_, ?_⟩
  · simp only [LineIndex.positionToOffset, LineIndex.new, absent, ↓reduceIte, here,
      separator_end_at starts, indexed_content_end starts, whole, column, bind, Option.bind, pure,
      Nat.zero_add]
    split <;> rfl
  · intro offset
    constructor
    · intro answered
      split at answered
      · rename_i exact
        have found := start_line starts
        rw [reached.parts] at found
        exact ⟨before, front, back, _, found, exact, Option.some.inj answered⟩
      · simp at answered
    · rintro ⟨before', front', back', after', found, weighed, rfl⟩
      obtain ⟨tail', starts', content, -⟩ := line_start found
      obtain ⟨rfl, rfl⟩ := start_unique starts starts'
      have exact : Reaches (lfCut tail).content character.toNat front' back' := by
        refine ⟨content, le_of_eq weighed, ?_⟩
        intro scalar rest _
        have positive := len_utf16_positive scalar
        change character.toNat < weight lenUtf16 front' + lenUtf16 scalar
        omega
      obtain rfl := reaches_unique reached exact
      exact if_pos weighed
  · intro offset answered
    split at answered
    · obtain rfl := Option.some.inj answered
      exact .inl ⟨before, tail, front, back, starts, reached, rfl⟩
    · simp at answered

theorem content_narrow {text before tail : List Char} {line : Nat}
    (starts : StartsAt lfCut text line before tail) (short : size text < 2 ^ 32) :
    utf16Len (lfCut tail).content < 2 ^ 32 := by
  have bytes := utf16_len_bytes (lfCut tail).content
  have inside := (content_slice starts (append_nil (lfCut tail).content).symm).2
  omega

theorem line_col_offset_walk (text : List Char) (line col : UInt32) (before tail : List Char)
    (curr : Nat) (starts : StartsAt lfCut text curr before tail) (reached : curr ≤ line.toNat) :
    (∀ before' tail', StartsAt lfCut text line.toNat before' tail' →
        lineColOffset text line col (size before) curr (splitInclusive tail) =
          some (size before' + (columnIndex col 0 0 (lfCut tail').content).getD
            (size (lfCut tail').content))) ∧
      ((¬ ∃ before' tail', StartsAt lfCut text line.toNat before' tail') →
        lineColOffset text line col (size before) curr (splitInclusive tail) = some (size text)) := by
  induction total : tail.length using Nat.strong_induction_on generalizing before tail curr with
  | _ length ih =>
    subst total
    have limit := line.toNat_lt
    obtain ⟨whole, parts⟩ := start_sizes starts
    by_cases vacant : tail = []
    · subst vacant
      rw [size_nil] at whole
      refine ⟨?_, fun _ => rfl⟩
      intro before' tail' starts'
      by_cases here : curr = line.toNat
      · obtain ⟨rfl, rfl⟩ := start_unique (here ▸ starts) starts'
        exact congrArg some whole
      · exact absurd rfl (start_apart starts starts' (by omega)).1
    · rw [split_inclusive_cut tail vacant, lineColOffset]
      by_cases here : curr = line.toNat
      · have same : UInt32.ofNat curr = line := by rw [here]; simp
        rw [if_pos same]
        refine ⟨?_, fun absent => absurd ⟨before, tail, here ▸ starts⟩ absent⟩
        intro before' tail' starts'
        obtain ⟨rfl, rfl⟩ := start_unique (here ▸ starts) starts'
        by_cases first : col = 0
        · rw [if_pos first, first]
          cases (lfCut tail).content with
          | nil => rfl
          | cons scalar rest => rfl
        · rw [if_neg first]
          simp only [line_content_end_cut, slice_front, map_some]
          cases columnIndex col 0 0 (lfCut tail).content with
          | none =>
            simp only [getD_none, Option.some.injEq]
            omega
          | some byteIndex => rfl
      · have differs : ¬ UInt32.ofNat curr = line := by
          intro same
          have value := congrArg UInt32.toNat same
          rw [UInt32.toNat_ofNat', Nat.mod_eq_of_lt (by omega)] at value
          exact here value
        rw [if_neg differs]
        by_cases bare : (lfCut tail).separator = []
        · rw [(lfCut tail).last bare]
          refine ⟨?_, fun _ => rfl⟩
          intro before' tail' starts'
          exact absurd bare (start_apart starts starts' (by omega)).1
        · have further := ih _ (rest_shorter tail bare) _ _ _ (start_step starts bare) (by omega) rfl
          simpa only [size_append, Nat.add_assoc] using further

theorem line_col_offset_placed (text : List Char) (line col : UInt32)
    (narrow : ∀ before tail, StartsAt lfCut text line.toNat before tail →
      utf16Len (lfCut tail).content < 2 ^ 32) : ∃ offset, Placed text line.toNat col.toNat offset ∧
      utf16LineColToOffset text line col = some offset := by
  obtain ⟨present, missing⟩ := line_col_offset_walk text line col [] text 0 (.first text) (Nat.zero_le _)
  by_cases known : ∃ before tail, StartsAt lfCut text line.toNat before tail
  · obtain ⟨before, tail, starts⟩ := known
    obtain ⟨front, back, reaches⟩ := reaches_exists (lfCut tail).content col.toNat
    have columns := narrow before tail starts
    have column := column_index_reaches col front back 0 0 (by
      rw [← reaches.parts]
      change 0 + _ < _
      omega) (by simpa using reaches.fits) (by simpa using reaches.next)
    rw [← reaches.parts, Nat.zero_add] at column
    refine ⟨size before + size front, .inl ⟨before, tail, front, back, starts, reaches, rfl⟩, ?_⟩
    refine (present before tail starts).trans ?_
    rw [column]
    by_cases all : back = []
    · rw [if_pos all, getD_none, reaches.parts, all, append_nil]
    · rw [if_neg all, getD_some]
  · exact ⟨size text, .inr ⟨known, rfl⟩, missing known⟩

end PositionToOffset

/-- Every byte offset has one position and every position one offset, whichever converter is asked,
and the exact index answers exactly at the addressable positions. -/
theorem converters_agree (text : List Char) (rope : Rope) (faithful : rope.text = text)
    (short : size text < 2 ^ 32) :
    newRope rope = LineStartsCache.new text ∧
    (∀ offset, ∃ position, offsetToUtf16LineCol text offset = some position ∧
      (LineStartsCache.new text).offsetToPosition text offset = some position ∧
      (newRope rope).offsetToPositionRope rope offset = some position ∧
      (LineIndex.new text).offsetToPosition offset = some position) ∧
    (∀ line column : UInt32, ∃ offset answer, utf16LineColToOffset text line column = some offset ∧
      (LineStartsCache.new text).positionToOffset text line column = some offset ∧
      (newRope rope).positionToOffsetRope rope line column = some offset ∧
      (LineIndex.new text).positionToOffset line column = some answer ∧
      (answer.isSome = true ↔ ∃ place, Address lfCut lenUtf16 text line.toNat column.toNat place) ∧
      ∀ place, answer = some place → place = offset) := by
  subst faithful
  refine ⟨congrArg LineStartsCache.mk (rope_starts rope), ?_, ?_⟩
  · intro offset
    obtain ⟨line, column, located, converted⟩ := convert_offset_located rope.text offset
    obtain ⟨line₁, column₁, located₁, cached⟩ := cache_offset_located rope.text offset
    obtain ⟨line₂, column₂, located₂, roped⟩ := rope_offset_located rope offset
    obtain ⟨line₃, column₃, located₃, indexed⟩ := index_offset_located rope.text offset short
    obtain ⟨rfl, rfl⟩ := located_unique located located₁
    obtain ⟨rfl, rfl⟩ := located_unique located located₂
    obtain ⟨rfl, rfl⟩ := located_unique located located₃
    exact ⟨_, converted, cached, roped, indexed⟩
  · intro line column
    obtain ⟨offset, placed, converted⟩ := line_col_offset_placed rope.text line column
      (fun before tail starts => content_narrow starts short)
    obtain ⟨offset₁, placed₁, cached⟩ := cache_position_placed rope.text line column
    obtain ⟨offset₂, placed₂, roped⟩ := rope_position_placed rope line column short
    obtain ⟨answer, indexed, exact, agrees⟩ := index_position_addressed rope.text line column
    obtain rfl := placed_unique placed placed₁
    obtain rfl := placed_unique placed placed₂
    refine ⟨offset, answer, converted, cached, roped, indexed, ?_, ?_⟩
    · rw [isSome_iff_exists]
      exact exists_congr exact
    · intro place answered
      exact placed_unique (agrees place answered) placed

-- A text with a surrogate pair, a bare CR and a CRLF, held in two rope chunks.
theorem converters_agree_mixed_lines :
    Rope.text ⟨[['a', '💖', '\r'], ['\n', '\r', 'é']]⟩ = ['a', '💖', '\r', '\n', '\r', 'é'] ∧
      size ['a', '💖', '\r', '\n', '\r', 'é'] < 2 ^ 32 ∧
      newRope ⟨[['a', '💖', '\r'], ['\n', '\r', 'é']]⟩ =
        LineStartsCache.new ['a', '💖', '\r', '\n', '\r', 'é'] :=
  ⟨rfl, by decide, (converters_agree ['a', '💖', '\r', '\n', '\r', 'é']
    ⟨[['a', '💖', '\r'], ['\n', '\r', 'é']]⟩ rfl (by decide)).1⟩

end PerlLsp.PositionConvert
