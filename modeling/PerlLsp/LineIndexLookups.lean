import PerlLsp.Incremental
import PerlLsp.PositionMapper
import PerlLsp.PositionRoundTrip

/-! The lookups of `LineIndex` in perl-line-index: byte columns there and back, and UTF-16 columns.
The byte lookups count a line up to its LF; the UTF-16 lookup ends it where the terminator starts,
be it LF or CRLF. -/
namespace PerlLsp.LineIndexLookups
open Utf8 TextLines PositionConvert Incremental List Option
open PositionMapper (lfLines lf_lines_at lf_lines_start)

abbrev LineIndex := Incremental.LineIndex

def positionToByte (index : LineIndex) (line column : Nat) : Option Nat :=
  match index.lineStarts[line]? with
  | none => none
  | some start =>
    let lineEnd := match index.lineStarts[line + 1]? with
      | some nextStart => nextStart - 1
      | none => index.textLen
    let maxColumn := lineEnd - start
    if maxColumn < column then none else some (start + column)

/-- `text.as_bytes().get(nextStart - 2..nextStart) == Some(b"\\r\\n")` -/
def endsCrlf (text : List Char) (nextStart : Nat) : Prop :=
  2 ≤ nextStart ∧ (encode text)[nextStart - 2]? = some 0x0D ∧
    (encode text)[nextStart - 1]? = some 0x0A

instance (text : List Char) (nextStart : Nat) : Decidable (endsCrlf text nextStart) :=
  inferInstanceAs (Decidable (_ ∧ _ ∧ _))

/-- The walk over the line is the one of `utf16_to_byte_offset`. -/
def positionToByteUtf16 (index : LineIndex) (text : List Char) (line column : Nat) : Option Nat :=
  match index.lineStarts[line]? with
  | none => none
  | some lineStart =>
    let lineEnd := match index.lineStarts[line + 1]? with
      | some nextStart =>
        let terminatorLen := if endsCrlf text nextStart then 2 else 1
        nextStart - terminatorLen
      | none => index.textLen
    (slice text lineStart lineEnd).bind fun lineText =>
      (PositionConvert.LineIndex.utf16ToByteOffset column 0 0 lineText).map (lineStart + ·)

section Starts

theorem line_starts_bytes (offset : Nat) (text : List Char) :
    lineStartsFrom offset text = lfStartsFrom offset (encode text) := by
  induction text generalizing offset with
  | nil => rfl
  | cons scalar rest ih =>
    have bytes : encode (scalar :: rest) = encode [scalar] ++ encode rest :=
      encode_append [scalar] rest
    have width : (encode [scalar]).length = scalar.utf8Size := by
      change size [scalar] = _
      rw [size_cons, size_nil, Nat.add_zero]
    rw [lineStartsFrom, bytes, lf_starts_append, width]
    split
    next isLf =>
      rw [isLf, ih]
      rfl
    next other =>
      have plain := lf_starts_unbroken offset _ (encode_unbroken [scalar] (by simpa using Ne.symm other))
      rw [plain, nil_append, ih]

theorem new_starts (text : List Char) : (Incremental.LineIndex.new text).lineStarts = lfLineStarts text := by
  rw [Incremental.LineIndex.new, line_starts_bytes]
  rfl

section
variable {text before tail : List Char} {line : Nat} (starts : StartsAt lfCut text line before tail)
include text before tail line starts

/-- A line starts behind an LF or at the start of the text. -/
theorem before_ends : before = [] ∨ before.getLast? = some '\n' := by
  induction starts with
  | first text => exact .inl rfl
  | next text line before tail separated starts ih =>
    right
    rcases ih with rfl | last
    · rcases lf_separator text with bare | ⟨lf, -⟩ | crlf
      · exact absurd bare separated
      · simp [lf]
      · simp [crlf]
    · rw [getLast?_append, last]
      rfl

theorem ends_crlf_iff (separated : (lfCut tail).separator ≠ []) :
    endsCrlf text (size before + size (lfCut tail).content + size (lfCut tail).separator) ↔
      (lfCut tail).separator = ['\r', '\n'] := by
  have whole : text = before ++ (lfCut tail).content ++ ((lfCut tail).separator ++ (lfCut tail).rest) :=
    line_whole (start_line starts)
  rcases lf_separator tail with bare | ⟨lf, kept⟩ | crlf
  · exact absurd bare separated
  · refine iff_of_false ?_ (by simp [lf])
    rintro ⟨some, cr, -⟩
    have width : size ['\n'] = 1 := rfl
    rw [lf, width] at some cr
    have front : size before + size (lfCut tail).content + 1 - 2 =
        size [] + size (before ++ (lfCut tail).content) - 1 := by
      rw [size_append, size_nil]
      omega
    have last := byte_last [] (before ++ (lfCut tail).content)
      ((lfCut tail).separator ++ (lfCut tail).rest) (by rw [size_append]; omega)
    rw [nil_append, ← whole, ← front, cr] at last
    have ends : (before ++ (lfCut tail).content).getLast? = Option.some '\r' :=
      (encode_getLast _ '\r' (by decide)).mp last.symm
    cases content : (lfCut tail).content.getLast? with
    | none =>
      rw [getLast?_append, content, none_or] at ends
      rcases before_ends starts with empty | newline
      · rw [empty] at ends
        cases ends
      · rw [newline] at ends
        cases ends
    | some scalar =>
      rw [getLast?_append, content, some_or] at ends
      exact kept (content.trans ends)
  · have first : (encode text)[size before + size (lfCut tail).content]? = some 0x0D := by
      rw [whole, crlf]
      exact byte_behind _ _ _ 0
    have second : (encode text)[size before + size (lfCut tail).content + 1]? = some 0x0A := by
      rw [whole, crlf]
      exact byte_behind _ _ _ 1
    have width : size ['\r', '\n'] = 2 := rfl
    refine iff_of_true ?_ crlf
    rw [crlf]
    exact ⟨by omega, first, second⟩

end

end Starts

section Bytes

theorem position_to_byte_iff (text : List Char) (line column byte : Nat) :
    positionToByte (Incremental.LineIndex.new text) line column = some byte ↔
      ∃ before tail, StartsAt lfCut text line before tail ∧ InRow lfCut before tail byte ∧
        byte ≤ size text ∧ byte = size before + column := by
  unfold positionToByte
  rw [new_starts]
  by_cases known : ∃ before tail, StartsAt lfCut text line before tail
  · obtain ⟨before, tail, starts⟩ := known
    obtain ⟨here, next⟩ := line_starts_at starts
    obtain ⟨whole, parts⟩ := start_sizes starts
    have bound : ∃ lineEnd, (match (lfLineStarts text)[line + 1]? with
        | some nextStart => nextStart - 1
        | none => (Incremental.LineIndex.new text).textLen) = lineEnd ∧
        ∀ byte, size before ≤ byte → (byte ≤ lineEnd ↔ InRow lfCut before tail byte ∧ byte ≤ size text) := by
      refine ⟨_, rfl, ?_⟩
      intro byte behind
      rw [next]
      unfold InRow
      by_cases bare : (lfCut tail).separator = []
      · rw [if_pos bare]
        dsimp only [Incremental.LineIndex.new]
        exact ⟨fun inside => ⟨⟨behind, fun some => absurd bare some⟩, inside⟩, fun inside => inside.2⟩
      have some : size (lfCut tail).separator ≠ 0 := fun zero => bare (size_zero _ zero)
      rw [if_neg bare]
      change byte ≤ size before + size (lfCut tail).content + size (lfCut tail).separator - 1 ↔ _
      constructor
      · intro inside
        exact ⟨⟨behind, fun _ => by omega⟩, by omega⟩
      · rintro ⟨⟨-, high⟩, -⟩
        have below := high bare
        omega
    obtain ⟨lineEnd, bounded, inside⟩ := bound
    rw [here]
    dsimp only
    rw [bounded]
    have reach := inside (size before + column) (Nat.le_add_right _ _)
    constructor
    · intro found
      split at found
      · cases found
      rename_i fits
      obtain rfl := Option.some.inj found
      have first := (inside (size before) (Nat.le_refl _)).mpr ⟨⟨Nat.le_refl _, fun some => by
        have positive : size (lfCut tail).separator ≠ 0 := fun zero => some (size_zero _ zero)
        omega⟩, by omega⟩
      obtain ⟨row, low⟩ := reach.mp (by omega)
      exact ⟨before, tail, starts, row, low, rfl⟩
    · rintro ⟨before', tail', starts', row, low, rfl⟩
      obtain ⟨rfl, rfl⟩ := start_unique starts starts'
      have fits := reach.mpr ⟨row, low⟩
      rw [if_neg (by omega)]
  · have missing : (lfLineStarts text)[line]? = none :=
      getElem?_eq_none ((starts_length text line).mpr known)
    rw [missing]
    refine iff_of_false (by simp) ?_
    rintro ⟨before, tail, starts, -⟩
    exact known ⟨before, tail, starts⟩

theorem byte_to_position_row {text before tail : List Char} {line byte : Nat}
    (starts : StartsAt lfCut text line before tail) (row : InRow lfCut before tail byte)
    (inside : byte ≤ size text) :
    (Incremental.LineIndex.new text).byteToPosition byte = (line, byte - size before) := by
  obtain ⟨here, -⟩ := line_starts_at starts
  have length := (List.getElem?_eq_some_iff.mp here).1
  unfold Incremental.LineIndex.byteToPosition
  rw [new_starts]
  dsimp only [Incremental.LineIndex.new]
  rw [Nat.min_eq_left inside, line_of_start starts row, Nat.min_eq_left (by omega), here]
  rfl

/-- Byte columns lead back to the byte they were taken from. -/
theorem byte_round_trip (text : List Char) (byte : Nat) (inside : byte ≤ size text) :
    let position := (Incremental.LineIndex.new text).byteToPosition byte
    positionToByte (Incremental.LineIndex.new text) position.1 position.2 = some byte := by
  obtain ⟨line, before, tail, starts, row⟩ := @row_exists lfCut text byte
  rw [byte_to_position_row starts row inside]
  have behind := row.1
  exact (position_to_byte_iff text _ _ _).mpr ⟨before, tail, starts, row, inside, by dsimp only; omega⟩

theorem position_round_trip {text : List Char} {line column byte : Nat}
    (found : positionToByte (Incremental.LineIndex.new text) line column = some byte) :
    (Incremental.LineIndex.new text).byteToPosition byte = (line, column) := by
  obtain ⟨before, tail, starts, row, inside, rfl⟩ := (position_to_byte_iff _ _ _ _).mp found
  rw [byte_to_position_row starts row inside, Nat.add_sub_cancel_left]

end Bytes

section Units

/-- The UTF-16 lookup answers the address in the line's content, if there is one. -/
theorem position_to_byte_utf16_iff (text : List Char) (line column byte : Nat) :
    positionToByteUtf16 (Incremental.LineIndex.new text) text line column = some byte ↔
      Address lfCut lenUtf16 text line column byte := by
  unfold positionToByteUtf16
  rw [new_starts]
  by_cases known : ∃ before tail, StartsAt lfCut text line before tail
  · obtain ⟨before, tail, starts⟩ := known
    obtain ⟨here, next⟩ := line_starts_at starts
    have content_end : (match (lfLineStarts text)[line + 1]? with
        | some nextStart => nextStart - (if endsCrlf text nextStart then 2 else 1)
        | none => (Incremental.LineIndex.new text).textLen) =
          size before + size (lfCut tail).content := by
      rw [next]
      by_cases bare : (lfCut tail).separator = []
      · obtain ⟨whole, parts⟩ := start_sizes starts
        rw [bare, (lfCut tail).last bare, size_nil] at parts
        rw [if_pos bare]
        dsimp only [Incremental.LineIndex.new]
        omega
      · rw [if_neg bare]
        dsimp only
        rcases lf_separator tail with none | ⟨lf, -⟩ | crlf
        · exact absurd none bare
        · have plain : (lfCut tail).separator ≠ ['\r', '\n'] := by simp [lf]
          rw [if_neg (mt (ends_crlf_iff starts bare).mp plain), lf]
          rfl
        · rw [if_pos ((ends_crlf_iff starts bare).mpr crlf), crlf]
          rfl
    obtain ⟨front, back, reaches⟩ := reaches_exists (lfCut tail).content column
    have walk := byte_offset_reaches column front back 0 0 (by simpa using reaches.fits)
      (by simpa using reaches.next)
    rw [← reaches.parts, Nat.zero_add, Nat.zero_add] at walk
    rw [here]
    dsimp only
    rw [content_end, (content_slice starts (append_nil (lfCut tail).content).symm).1, bind_some, walk]
    constructor
    · intro found
      split at found
      · next weighed =>
          obtain rfl := Option.some.inj found
          have line_at := start_line starts
          rw [reaches.parts] at line_at
          exact ⟨before, front, back, _, line_at, weighed, rfl⟩
      · cases found
    · rintro ⟨before', front', back', after, there, weighed, rfl⟩
      obtain ⟨rfl, parts, -⟩ := line_unique (start_line starts) there
      rw [← weighed] at reaches
      have itself : Reaches (lfCut tail).content (weight lenUtf16 front') front' back' :=
        PositionRoundTrip.reaches_itself parts
      have units : utf16Len front' = column := weighed
      rw [reaches_unique reaches itself, if_pos units]
      rfl
  · have missing : (lfLineStarts text)[line]? = none :=
      getElem?_eq_none ((starts_length text line).mpr known)
    rw [missing]
    refine iff_of_false (by simp) ?_
    rintro ⟨before, front, back, after, here, -⟩
    obtain ⟨tail, starts, -⟩ := line_start here
    exact known ⟨before, tail, starts⟩

theorem ascii_sizes {text : List Char} (ascii : ∀ scalar ∈ text, scalar.toNat < 128) :
    size text = text.length ∧ utf16Len text = text.length := by
  induction text with
  | nil => exact ⟨rfl, rfl⟩
  | cons scalar rest ih =>
    have low := ascii scalar mem_cons_self
    obtain ⟨bytes, units⟩ := ih fun other member => ascii other (mem_cons_of_mem _ member)
    have one : scalar.utf8Size = 1 := by
      have value : scalar.val.toNat < 128 := low
      exact Char.utf8Size_eq_one_iff.mpr (UInt32.le_iff_toNat_le.mpr (Nat.le_of_lt_succ value))
    have single : lenUtf16 scalar = 1 := by
      have value : scalar.val.toNat < 128 := low
      unfold lenUtf16
      rw [if_pos (by omega)]
    rw [size_cons, utf16_len_cons, units, one, single, length_cons]
    omega

section AsciiLines
variable {text before tail : List Char} {line : Nat} (starts : StartsAt lfCut text line before tail)
  (ascii : ∀ scalar ∈ (lfCut tail).content ++ (lfCut tail).separator, scalar.toNat < 128)

include starts ascii

theorem ascii_units (column byte : Nat) :
    positionToByteUtf16 (Incremental.LineIndex.new text) text line column = some byte ↔
      column ≤ (lfCut tail).content.length ∧ byte = size before + column := by
  have sizes (front back : List Char) (parts : (lfCut tail).content = front ++ back) :
      size front = front.length ∧ utf16Len front = front.length := by
    apply ascii_sizes
    intro scalar member
    apply ascii scalar
    rw [parts]
    simp [member]
  rw [position_to_byte_utf16_iff]
  constructor
  · rintro ⟨before', front, back, after, there, weighed, rfl⟩
    obtain ⟨rfl, parts, -⟩ := line_unique (start_line starts) there
    obtain ⟨bytes, units⟩ := sizes front back parts
    have count : utf16Len front = column := weighed
    rw [parts, length_append]
    exact ⟨by omega, by omega⟩
  · rintro ⟨inside, rfl⟩
    have parts := (take_append_drop column (lfCut tail).content).symm
    obtain ⟨bytes, units⟩ := sizes _ _ parts
    have length : ((lfCut tail).content.take column).length = column := length_take_of_le inside
    have line_at := start_line starts
    rw [parts] at line_at
    exact ⟨before, _, _, _, line_at, units.trans length, by rw [bytes, length]⟩

theorem ascii_bytes (column byte : Nat) :
    positionToByte (Incremental.LineIndex.new text) line column = some byte ↔
      (if (lfCut tail).separator = [] then column ≤ (lfCut tail).content.length
        else column < (lfCut tail).content.length + (lfCut tail).separator.length) ∧
        byte = size before + column := by
  have contents := (ascii_sizes fun scalar member => ascii scalar (mem_append_left _ member)).1
  have separators := (ascii_sizes fun scalar member => ascii scalar (mem_append_right _ member)).1
  obtain ⟨whole, parts⟩ := start_sizes starts
  rw [position_to_byte_iff]
  constructor
  · rintro ⟨before', tail', starts', row, inside, rfl⟩
    obtain ⟨rfl, rfl⟩ := start_unique starts starts'
    refine ⟨?_, rfl⟩
    split
    next bare =>
      rw [bare, (lfCut tail).last bare, size_nil] at parts
      omega
    next separated =>
      have high := row.2 separated
      omega
  · rintro ⟨inside, rfl⟩
    split at inside
    next bare =>
      exact ⟨before, tail, starts, ⟨Nat.le_add_right _ _, fun some => absurd bare some⟩, by omega, rfl⟩
    next separated =>
      exact ⟨before, tail, starts, ⟨Nat.le_add_right _ _, fun _ => by omega⟩, by omega, rfl⟩

end AsciiLines

theorem last_before {front : List Char} (crlf : ['\r', '\n'] <:+ front ++ ['\n']) :
    front.getLast? = some '\r' := by
  obtain ⟨first, parts⟩ := crlf
  have same : (first ++ ['\r']) ++ ['\n'] = front ++ ['\n'] := by rw [← parts, append_assoc]; rfl
  rw [← append_cancel_right same, getLast?_concat]

/-- On a line of ASCII characters the lookups agree at every column but that of a CRLF's LF. -/
theorem ascii_lookups (text : List Char) (line column : Nat) (lineText : List Char)
    (found : (lfLines text)[line]? = some lineText) (ascii : ∀ scalar ∈ lineText, scalar.toNat < 128) :
    if ['\r', '\n'] <:+ lineText ∧ column + 1 = lineText.length then
      positionToByteUtf16 (Incremental.LineIndex.new text) text line column = none ∧
        positionToByte (Incremental.LineIndex.new text) line column ≠ none
    else positionToByteUtf16 (Incremental.LineIndex.new text) text line column =
      positionToByte (Incremental.LineIndex.new text) line column := by
  obtain ⟨before, tail, starts⟩ := lf_lines_start (List.getElem?_eq_some_iff.mp found).1
  obtain rfl := Option.some.inj (found.symm.trans (lf_lines_at starts).1)
  have units := ascii_units starts ascii column
  have bytes := ascii_bytes starts ascii column
  rcases lf_separator tail with bare | ⟨lf, kept⟩ | crlf
  · have plain : ¬ ['\r', '\n'] <:+ (lfCut tail).content ++ (lfCut tail).separator := by
      rw [bare, append_nil]
      exact fun crlf => lf_content tail (crlf.subset (by simp))
    rw [if_neg fun both => plain both.1]
    ext byte
    rw [units, bytes, if_pos bare]
  · have plain : ¬ ['\r', '\n'] <:+ (lfCut tail).content ++ (lfCut tail).separator := by
      rw [lf]
      exact fun crlf => kept (last_before crlf)
    have some : (lfCut tail).separator ≠ [] := by simp [lf]
    rw [if_neg fun both => plain both.1]
    ext byte
    rw [units, bytes, if_neg some, lf, length_singleton, Nat.lt_succ_iff]
  · have terminated : ['\r', '\n'] <:+ (lfCut tail).content ++ (lfCut tail).separator := by
      rw [crlf]
      exact suffix_append _ _
    have length : ((lfCut tail).content ++ (lfCut tail).separator).length =
        (lfCut tail).content.length + 2 := by rw [crlf, length_append]; rfl
    rw [crlf] at bytes
    rw [length]
    split
    next onLf =>
      constructor
      · apply Option.eq_none_iff_forall_ne_some.mpr
        intro byte answer
        have inside := ((units byte).mp answer).1
        omega
      · intro missing
        have answer := (bytes (size before + column)).mpr ⟨by
          change column < (lfCut tail).content.length + 2
          omega, rfl⟩
        rw [missing] at answer
        cases answer
    next elsewhere =>
      have other : column + 1 ≠ (lfCut tail).content.length + 2 := fun here =>
        elsewhere ⟨terminated, here⟩
      ext byte
      rw [units, bytes]
      change _ ↔ column < (lfCut tail).content.length + 2 ∧ _
      constructor
      · rintro ⟨inside, rfl⟩
        exact ⟨by omega, rfl⟩
      · rintro ⟨inside, rfl⟩
        exact ⟨by omega, rfl⟩

end Units

/-- The byte lookups are inverse to one another; the UTF-16 lookup answers boundaries of the line in
the order of the columns, and on ASCII lines it is the byte lookup, but for a CRLF's LF. -/
theorem lookups_agree (text : List Char) :
    let index := Incremental.LineIndex.new text
    (∀ byte, byte ≤ size text →
      positionToByte index (index.byteToPosition byte).1 (index.byteToPosition byte).2 = some byte) ∧
    (∀ line column byte, positionToByte index line column = some byte →
      index.byteToPosition byte = (line, column)) ∧
    (∀ line column byte, positionToByteUtf16 index text line column = some byte →
      isCharBoundary text byte = true ∧ (index.byteToPosition byte).1 = line) ∧
    (∀ line column column' byte byte', column < column' →
      positionToByteUtf16 index text line column = some byte →
      positionToByteUtf16 index text line column' = some byte' → byte < byte') ∧
    ∀ line column lineText, (lfLines text)[line]? = some lineText →
      (∀ scalar ∈ lineText, scalar.toNat < 128) →
      if ['\r', '\n'] <:+ lineText ∧ column + 1 = lineText.length then
        positionToByteUtf16 index text line column = none ∧ positionToByte index line column ≠ none
      else positionToByteUtf16 index text line column = positionToByte index line column := by
  refine ⟨byte_round_trip text, fun _ _ _ => position_round_trip, ?_, ?_, ?_⟩
  · intro line column byte found
    have address := (position_to_byte_utf16_iff _ _ _ _).mp found
    refine ⟨address_boundary address, ?_⟩
    obtain ⟨before, front, back, after, here, -, rfl⟩ := address
    obtain ⟨tail, starts, content, -⟩ := line_start here
    have whole := congrArg size (line_whole here)
    simp only [size_append] at whole
    have row : InRow lfCut before tail (size before + size front) := by
      refine ⟨Nat.le_add_right _ _, ?_⟩
      intro separated
      have some : size (lfCut tail).separator ≠ 0 := fun zero => separated (size_zero _ zero)
      rw [content, size_append]
      omega
    rw [byte_to_position_row starts row (by omega)]
  · intro line column column' byte byte' less left right
    exact address_less ((position_to_byte_utf16_iff _ _ _ _).mp left)
      ((position_to_byte_utf16_iff _ _ _ _).mp right) (.inr ⟨rfl, less⟩)
  · intro line column lineText found ascii
    exact ascii_lookups text line column lineText found ascii

/-- The LF of a CRLF has a byte column and no UTF-16 column. -/
theorem crlf_lookups_differ :
    ¬ ∀ text line column lineText, (lfLines text)[line]? = some lineText →
      (∀ scalar ∈ lineText, scalar.toNat < 128) →
      positionToByteUtf16 (Incremental.LineIndex.new text) text line column =
        positionToByte (Incremental.LineIndex.new text) line column := by
  intro agree
  have same := agree ['a', '\r', '\n', 'b'] 0 2 ['a', '\r', '\n'] (by decide) (by simp)
  revert same
  decide +kernel

end PerlLsp.LineIndexLookups
