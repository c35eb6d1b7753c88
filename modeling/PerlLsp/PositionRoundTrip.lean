import Mathlib.Order.Bounds.Basic
import PerlLsp.PositionConvert

/-! Round trips of `offset_to_utf16_line_col` and `utf16_line_col_to_offset` of
perl-position-tracking/src/convert.rs, from an offset to a position and back and from a
position to an offset and back. Lines and columns are `u32`, so both directions are about
texts whose lines and columns fit one. -/
namespace PerlLsp.PositionRoundTrip
open Utf8 TextLines PositionConvert
variable (text : List Char)

/-- `utf16_line_col_to_offset(offset_to_utf16_line_col(offset))` -/
def offsetRoundTrip (offset : Nat) : Option Nat :=
  (offsetToUtf16LineCol text offset).bind fun position =>
    utf16LineColToOffset text position.1 position.2

/-- `offset_to_utf16_line_col(utf16_line_col_to_offset(line, column))` -/
def positionRoundTrip (line column : UInt32) : Option (UInt32 × UInt32) :=
  (utf16LineColToOffset text line column).bind (offsetToUtf16LineCol text)

/-- Every line number and every column of the text fits a `u32`. -/
def Fits : Prop :=
  ∀ line before tail, StartsAt lfCut text line before tail →
    line < 2 ^ 32 ∧ utf16Len (lfCut tail).content < 2 ^ 32

/-- A boundary between two scalars of a line's content, or one of its ends. -/
def Addressable (place : Nat) : Prop :=
  ∃ line units, Address lfCut lenUtf16 text line units place

/-- Where a position is clamped to: the place its column reaches in its line, or the end of the last
line when there is no such line. -/
def ClampedTo (text : List Char) (line column line' column' : Nat) : Prop :=
  (line' = line ∧ ∃ before tail front back, StartsAt lfCut text line before tail ∧
    Reaches (lfCut tail).content column front back ∧ column' = utf16Len front) ∨
  ((¬ ∃ before tail, StartsAt lfCut text line before tail) ∧
    ∃ before tail, StartsAt lfCut text line' before tail ∧ (lfCut tail).separator = [] ∧
      column' = utf16Len (lfCut tail).content)

section Places
variable {text : List Char}

theorem reaches_itself {content front back : List Char} (parts : content = front ++ back) :
    Reaches content (utf16Len front) front back := by
  refine ⟨parts, Nat.le_refl _, ?_⟩
  intro scalar rest _
  have positive := len_utf16_positive scalar
  omega

section
variable {before tail front back : List Char} {line : Nat}
    (starts : StartsAt lfCut text line before tail) (content : (lfCut tail).content = front ++ back)
include before tail front back line starts content

/-- The place behind a front part of a line's content. -/
theorem addressable_front :
    Address lfCut lenUtf16 text line (utf16Len front) (size before + size front) := by
  have found := start_line starts
  rw [content] at found
  exact ⟨before, front, back, _, found, rfl, rfl⟩

theorem located_front : Located text (size before + size front) line (utf16Len front) := by
  refine ⟨before, tail, front, back, starts, ⟨Nat.le_add_right _ _, ?_⟩, content, rfl, Nat.le_refl _, ?_⟩
  · intro separated
    have some : size (lfCut tail).separator ≠ 0 := fun zero => separated (size_zero _ zero)
    rw [content, size_append]
    omega
  · intro scalar rest _
    have positive := scalar.utf8Size_pos
    omega

end

/-- The end of a text lies at the end of its last line. -/
theorem located_last {line column : Nat} (located : Located text (size text) line column) :
    ∃ before tail, StartsAt lfCut text line before tail ∧ (lfCut tail).separator = [] ∧
      column = utf16Len (lfCut tail).content := by
  obtain ⟨before, tail, front, back, starts, row, content, rfl, fits, next⟩ := located
  obtain ⟨whole, parts⟩ := start_sizes starts
  refine ⟨before, tail, starts, ?_, ?_⟩
  · by_contra separated
    have bound := row.2 separated
    omega
  · cases back with
    | nil => rw [content, List.append_nil]
    | cons scalar rest =>
      have bound := next scalar rest rfl
      rw [content, size_append, size_cons] at parts
      omega

section
variable {offset line column place : Nat} (located : Located text offset line column)
    (placed : Placed text line column place)
include offset line column place located placed

/-- The place an offset's position leads back to is the greatest one not behind the offset. -/
theorem located_greatest :
    IsGreatest {other | Addressable text other ∧ other ≤ min offset (size text)} place := by
  obtain ⟨before, tail, front, back, starts, row, content, rfl, fits, next⟩ := located
  obtain rfl : place = size before + size front := by
    refine placed_unique placed (.inl ⟨before, tail, front, back, starts, reaches_itself content, rfl⟩)
  have inside := (content_slice starts content).2
  refine ⟨⟨⟨line, _, addressable_front starts content⟩, by omega⟩, ?_⟩
  rintro other ⟨⟨line', units, address⟩, bound⟩
  have low : other ≤ offset := by omega
  by_contra behind
  have further := (address_order len_utf16_positive (addressable_front starts content) address).mp (by omega)
  obtain ⟨before', front', back', after', here, weighed, rfl⟩ := address
  rcases further with later | ⟨rfl, more⟩
  · obtain ⟨tail', starts', -, -⟩ := line_start here
    obtain ⟨separated, apart⟩ := start_apart starts starts' later
    have bound := row.2 separated
    omega
  obtain ⟨rfl, same, -⟩ := line_unique (start_line starts) here
  rw [content] at same
  rcases List.append_eq_append_iff.mp same with ⟨gap, grown, tail'⟩ | ⟨gap, shrunk, -⟩
  · cases gap with
    | nil =>
      rw [List.append_nil] at grown
      rw [grown] at behind
      omega
    | cons scalar rest =>
      have bound := next scalar _ tail'
      rw [grown, size_append, size_cons] at low
      omega
  · rw [shrunk, size_append] at behind
    omega

theorem located_clamp :
    ∃ before tail, StartsAt lfCut text line before tail ∧ InRow lfCut before tail offset ∧
      place = min (floorBoundary text (min offset (size text)))
        (size before + size (lfCut tail).content) := by
  obtain ⟨line', before, tail, front, back, starts, -, content, clamp, other⟩ :=
    clamped_front text offset
  obtain ⟨before', tail', -, -, starts', row', -, -, -, -⟩ := id located
  obtain ⟨rfl, rfl⟩ := located_unique located other
  obtain ⟨rfl, rfl⟩ := start_unique starts starts'
  refine ⟨before, tail, starts, row', ?_⟩
  rw [clamp]
  exact placed_unique placed (.inl ⟨before, tail, front, back, starts, reaches_itself content, rfl⟩)

end

end Places

section RoundTrips
variable {text : List Char}

section
variable (fits : Fits text)
include fits

theorem located_narrow {offset line column : Nat}
    (located : Located text offset line column) : line < 2 ^ 32 ∧ column < 2 ^ 32 := by
  obtain ⟨before, tail, front, back, starts, -, content, rfl, -, -⟩ := located
  obtain ⟨rows, columns⟩ := fits line before tail starts
  rw [content] at columns
  refine ⟨rows, ?_⟩
  have parts := weight_append lenUtf16 front back
  change weight lenUtf16 (front ++ back) < _ at columns
  change weight lenUtf16 front < _
  omega

theorem to_offset_placed (line column : UInt32) : ∃ offset, Placed text line.toNat column.toNat offset ∧
      utf16LineColToOffset text line column = some offset :=
  line_col_offset_placed text line column fun before tail starts => (fits _ before tail starts).2

theorem from_offset_located (offset : Nat) :
    ∃ line column : UInt32, Located text offset line.toNat column.toNat ∧
      offsetToUtf16LineCol text offset = some (line, column) := by
  obtain ⟨line, column, located, converted⟩ := convert_offset_located text offset
  obtain ⟨rows, columns⟩ := located_narrow fits located
  refine ⟨UInt32.ofNat line, UInt32.ofNat column, ?_, converted⟩
  rwa [UInt32.toNat_ofNat', UInt32.toNat_ofNat', Nat.mod_eq_of_lt rows, Nat.mod_eq_of_lt columns]

theorem offset_round_trip (offset : Nat) :
    ∃ line column : UInt32, ∃ back, Located text offset line.toNat column.toNat ∧
      Placed text line.toNat column.toNat back ∧ offsetRoundTrip text offset = some back := by
  obtain ⟨line, column, located, converted⟩ := from_offset_located fits offset
  obtain ⟨back, placed, returned⟩ := to_offset_placed fits line column
  refine ⟨line, column, back, located, placed, ?_⟩
  rw [offsetRoundTrip, converted]
  exact returned

theorem offset_round_trip_greatest {offset back : Nat} (returned : offsetRoundTrip text offset = some back) :
    IsGreatest {place | Addressable text place ∧ place ≤ min offset (size text)} back := by
  obtain ⟨line, column, place, located, placed, found⟩ := offset_round_trip fits offset
  obtain rfl := Option.some.inj (returned.symm.trans found)
  exact located_greatest located placed

theorem position_round_trip_clamped (line column : UInt32) :
    ∃ line' column', positionRoundTrip text line column = some (line', column') ∧
      ClampedTo text line.toNat column.toNat line'.toNat column'.toNat := by
  obtain ⟨offset, placed, converted⟩ := to_offset_placed fits line column
  obtain ⟨line', column', located, returned⟩ := from_offset_located fits offset
  refine ⟨line', column', ?_, ?_⟩
  · rw [positionRoundTrip, converted]
    exact returned
  · rcases placed with ⟨before, tail, front, back, starts, reaches, rfl⟩ | ⟨absent, rfl⟩
    · have here := located_front starts reaches.parts
      obtain ⟨rows, columns⟩ := located_unique located here
      exact .inl ⟨rows, before, tail, front, back, starts, reaches, columns⟩
    · exact .inr ⟨absent, located_last located⟩

end

/-- What a position is clamped to is clamped to itself. -/
theorem clamped_again {line column line' column' line'' column'' : Nat}
    (first : ClampedTo text line column line' column')
    (second : ClampedTo text line' column' line'' column'') : line'' = line' ∧ column'' = column' := by
  obtain ⟨before, tail, front, back, starts, content, rfl⟩ : ∃ before tail front back,
      StartsAt lfCut text line' before tail ∧ (lfCut tail).content = front ++ back ∧
        column' = utf16Len front := by
    rcases first with ⟨rfl, before, tail, front, back, starts, reaches, same⟩ |
      ⟨-, before, tail, starts, -, same⟩
    · exact ⟨before, tail, front, back, starts, reaches.parts, same⟩
    · exact ⟨before, tail, _, [], starts, (List.append_nil _).symm, same⟩
  rcases second with ⟨rfl, before', tail', front', back', starts', reaches, rfl⟩ | ⟨absent, -⟩
  · obtain ⟨rfl, rfl⟩ := start_unique starts starts'
    rw [reaches_unique reaches (reaches_itself content)]
    exact ⟨rfl, rfl⟩
  · exact absurd ⟨before, tail, starts⟩ absent

end RoundTrips

/-- From an offset and back leads to the greatest addressable place not behind it (its scalar's
start, or the end of the content from inside a terminator), monotonically and idempotently. From a
position and back clamps to a line and its content, idempotently. -/
theorem round_trips_clamp (text : List Char) (fits : Fits text) :
    (∀ offset, ∃ back, offsetRoundTrip text offset = some back ∧
        IsGreatest {place | Addressable text place ∧ place ≤ min offset (size text)} back ∧
        (∃ line before tail, StartsAt lfCut text line before tail ∧ InRow lfCut before tail offset ∧
          back = min (floorBoundary text (min offset (size text)))
            (size before + size (lfCut tail).content)) ∧
        offsetRoundTrip text back = some back) ∧
      (∀ offset offset' back back', offset ≤ offset' → offsetRoundTrip text offset = some back →
        offsetRoundTrip text offset' = some back' → back ≤ back') ∧
      ∀ line column, ∃ line' column', positionRoundTrip text line column = some (line', column') ∧
        ClampedTo text line.toNat column.toNat line'.toNat column'.toNat ∧
        positionRoundTrip text line' column' = some (line', column') := by
  refine ⟨?_, ?_, ?_⟩
  · intro offset
    obtain ⟨line, column, back, located, placed, returned⟩ := offset_round_trip fits offset
    have greatest := located_greatest located placed
    obtain ⟨before, tail, starts, row, clamp⟩ := located_clamp located placed
    refine ⟨back, returned, greatest, ⟨line.toNat, before, tail, starts, row, clamp⟩, ?_⟩
    obtain ⟨-, -, again, -, -, second⟩ := offset_round_trip fits back
    have fixed := offset_round_trip_greatest fits second
    have below : again ≤ min back (size text) := fixed.1.2
    have itself : back ≤ again := by
      apply fixed.2
      have inside : back ≤ min offset (size text) := greatest.1.2
      exact ⟨greatest.1.1, by omega⟩
    rw [second, show again = back by omega]
  · intro offset offset' back back' order first second
    have lower := offset_round_trip_greatest fits first
    have upper := offset_round_trip_greatest fits second
    apply upper.2
    have inside : back ≤ min offset (size text) := lower.1.2
    exact ⟨lower.1.1, by omega⟩
  · intro line column
    obtain ⟨line', column', returned, clamped⟩ := position_round_trip_clamped fits line column
    obtain ⟨line'', column'', again, fixed⟩ := position_round_trip_clamped fits line' column'
    obtain ⟨rows, columns⟩ := clamped_again clamped fixed
    refine ⟨line', column', returned, clamped, ?_⟩
    rw [again, UInt32.toNat_inj.mp rows, UInt32.toNat_inj.mp columns]

theorem short_fits {text : List Char} (short : size text < 2 ^ 32) : Fits text := by
  intro line before tail starts
  refine ⟨?_, content_narrow starts short⟩
  have rows : line ≤ size before := by
    clear short
    induction starts with
    | first => exact Nat.le_refl _
    | next text line before tail separated _ ih =>
      have some : size (lfCut text).separator ≠ 0 := fun zero => separated (size_zero _ zero)
      rw [size_append, size_append]
      omega
  have inside := (start_sizes starts).1
  omega

section Newlines

def newlines (count : Nat) : List Char := List.replicate count '\n'

theorem split_newlines (count : Nat) : (splitInclusive (newlines count)).length = count := by
  induction count with
  | zero => rfl
  | succ count ih =>
    have step : splitInclusive (newlines (count + 1)) = ['\n'] :: splitInclusive (newlines count) := by
      rfl
    rw [step, List.length_cons, ih]

theorem size_newlines (count : Nat) : size (newlines count) = count := by
  induction count with
  | zero => rfl
  | succ count ih =>
    rw [newlines, List.replicate_succ, size_cons, ← newlines, ih, Nat.add_comm]
    rfl

theorem newlines_last {count : Nat} (some : 0 < count) : (newlines count).getLast? = Option.some '\n' := by
  rw [newlines, List.getLast?_replicate, if_neg (by omega)]

/-- The end of a text of newlines is sent to the line of that number, cut to a `u32`. -/
theorem newlines_end (count : Nat) (some : 0 < count) :
    offsetToUtf16LineCol (newlines count) count = Option.some (UInt32.ofNat count, 0) := by
  have last := newlines_last some
  have full : (newlines count).isEmpty = false := by
    rw [List.isEmpty_eq_false_iff_exists_mem]
    exact ⟨'\n', List.mem_of_getLast? last⟩
  rw [offsetToUtf16LineCol, size_newlines, if_pos (Nat.le_refl _), textEndUtf16LineCol, last, full,
    split_newlines]
  rfl

theorem newlines_first_offset {count : Nat} (some : 0 < count) :
    utf16LineColToOffset (newlines count) 0 0 = Option.some 0 := by
  obtain ⟨before, rfl⟩ := Nat.exists_eq_add_one_of_ne_zero (Nat.ne_of_gt some)
  rw [utf16LineColToOffset, newlines, List.replicate_succ,
    split_inclusive_cut _ (List.cons_ne_nil _ _), lineColOffset, if_pos (by decide), if_pos rfl]

/-- 2^32 newlines have a last line whose number is no `u32`: its end is sent to the first line and
to the start. -/
theorem newlines_wrap :
    offsetRoundTrip (newlines (2 ^ 32)) (2 ^ 32) = some 0 ∧
      ¬ IsGreatest {place | Addressable (newlines (2 ^ 32)) place ∧
        place ≤ min (2 ^ 32) (size (newlines (2 ^ 32)))} 0 := by
  have many : 0 < 2 ^ 32 := by decide
  have width := size_newlines (2 ^ 32)
  constructor
  · rw [offsetRoundTrip, newlines_end _ many]
    exact newlines_first_offset many
  · intro greatest
    have final := final_row _ [] _ 0 (.first (newlines (2 ^ 32))) (newlines_last many)
    have last := addressable_front final (List.append_nil (lfCut []).content).symm
    rw [width] at last
    have bound := greatest.2 ⟨⟨_, _, last⟩, by rw [width]; exact Nat.le_of_eq rfl⟩
    exact absurd bound (by decide)

/-- Inside a CRLF the round trip goes to the end of the line. -/
theorem inside_terminator :
    ∃ back, offsetRoundTrip ['a', '\r', '\n'] 2 = some back ∧
      offsetRoundTrip ['a', '\r', '\n'] back = some back := by
  obtain ⟨offsets, -, -⟩ := round_trips_clamp ['a', '\r', '\n'] (short_fits (by decide))
  obtain ⟨back, returned, -, -, again⟩ := offsets 2
  exact ⟨back, returned, again⟩

end Newlines

end PerlLsp.PositionRoundTrip
