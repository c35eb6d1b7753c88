import Mathlib.Order.Bounds.Basic
import PerlLsp.PositionConvert

/-! `PositionMapper::lsp_pos_to_byte` and `apply_edit_utf8` of
perl-position-tracking/src/mapper.rs. The mapper asks a rope for its lines; how ropey
divides a text into lines is a parameter, of which only its documented behaviour on a
text without other line breaks than LF is used. The mapper's column is compared with that
of `utf16_line_col_to_offset`, which walks the line without its newline. -/
namespace PerlLsp.PositionMapper
open Utf8 TextLines PositionConvert List Option UInt32

section Positions

/-- The loop of `lsp_pos_to_byte` over the characters of a rope line. -/
def columnOffset (character : UInt32) : UInt32 → Nat → List Char → Nat
  | _, byteOffset, [] => byteOffset
  | utf16Offset, byteOffset, ch :: rest =>
    if character ≤ utf16Offset then byteOffset
    else
      let chUtf16Len : UInt32 := if 0xFFFF < ch.val then 2 else 1
      let nextUtf16 := utf16Offset + chUtf16Len
      if character < nextUtf16 then byteOffset
      else columnOffset character nextUtf16 (byteOffset + ch.utf8Size) rest

/-- `lsp_pos_to_byte` of a mapper of this text. `rope.line_to_byte` is the size of the lines
before. -/
def lspPosToByte (ropeLines : List Char → List (List Char)) (text : List Char)
    (line character : UInt32) : Option Nat :=
  match (ropeLines text)[line.toNat]? with
  | none => none
  | some lineText =>
    some (size ((ropeLines text).take line.toNat).flatten + columnOffset character 0 0 lineText)

def lfLinesFrom : List Char → List Char → List (List Char)
  | current, [] => [current]
  | current, scalar :: rest =>
    if scalar = '\n' then (current ++ ['\n']) :: lfLinesFrom [] rest
    else lfLinesFrom (current ++ [scalar]) rest

def lfLines (text : List Char) : List (List Char) := lfLinesFrom [] text

def OnlyLf (text : List Char) : Prop :=
  ∀ scalar ∈ text, scalar ∉ ['\r', '\x0b', '\x0c', '\u0085', '\u2028', '\u2029']

instance (text : List Char) : Decidable (OnlyLf text) :=
  inferInstanceAs (Decidable (∀ scalar ∈ text, _))

def Documented (ropeLines : List Char → List (List Char)) : Prop :=
  ∀ text, OnlyLf text → ropeLines text = lfLines text

def lineContent (lineText : List Char) : List Char := (stripSuffix '\n' lineText).getD lineText

/-- Counting UTF-16 units in a `u32`, the column lies within the content: at a scalar's end or
inside a surrogate pair. -/
def ReachedFrom (units : Nat) (content : List Char) (column : Nat) : Prop :=
  ∃ front back, content = front ++ back ∧
    ((units + utf16Len front) % 2 ^ 32 = column ∨
      ∃ scalar rest, back = scalar :: rest ∧ (units + utf16Len front) % 2 ^ 32 < column ∧
        column < (units + utf16Len front) % 2 ^ 32 + lenUtf16 scalar ∧
        (units + utf16Len front) % 2 ^ 32 + lenUtf16 scalar < 2 ^ 32)

def Reached (content : List Char) (column : Nat) : Prop := ReachedFrom 0 content column

theorem mapper_units (scalar : Char) :
    (if 0xFFFF < scalar.val then 2 else 1 : UInt32) = UInt32.ofNat (lenUtf16 scalar) := by
  unfold lenUtf16
  by_cases wide : 0xFFFF < scalar.val
  · have large : ¬ scalar.val.toNat < 0x10000 := by
      have bound := lt_iff_toNat_lt.mp wide
      change 65535 < scalar.val.toNat at bound
      omega
    rw [if_pos wide, if_neg large]
    rfl
  · have small : scalar.val.toNat < 0x10000 := by
      have bound := mt lt_iff_toNat_lt.mpr wide
      change ¬ 65535 < scalar.val.toNat at bound
      omega
    rw [if_neg wide, if_pos small]
    rfl

def unitsAfter (up : UInt32) (content : List Char) : UInt32 :=
  content.foldl (fun up scalar => up + UInt32.ofNat (lenUtf16 scalar)) up

/-- Both walks stop at one scalar of the content, or the mapper's goes on behind it. -/
theorem column_offset_walk (column : UInt32) (content separator : List Char) (up : UInt32)
    (bytes : Nat) (order : up ≤ column) :
    match columnIndex column up bytes content with
    | some byteIndex => columnOffset column up bytes (content ++ separator) = byteIndex
    | none => unitsAfter up content ≤ column ∧
        columnOffset column up bytes (content ++ separator) =
          columnOffset column (unitsAfter up content) (bytes + size content) separator := by
  induction content generalizing up bytes with
  | nil => exact ⟨order, rfl⟩
  | cons scalar rest ih =>
    rw [cons_append, columnIndex, columnOffset, mapper_units]
    by_cases here : up = column
    · rw [if_pos here, if_pos (here ▸ UInt32.le_refl _)]
    have before : up < column := UInt32.lt_of_le_of_ne order here
    rw [if_neg here, if_neg (UInt32.not_le.mpr before)]
    by_cases inside : column < up + UInt32.ofNat (lenUtf16 scalar)
    · rw [if_pos ⟨before, inside⟩, if_pos inside]
    have later := ih (up + UInt32.ofNat (lenUtf16 scalar)) (bytes + scalar.utf8Size)
      (UInt32.not_lt.mp inside)
    rw [if_neg (fun both => inside both.2), if_neg inside]
    simp only [inside, ↓reduceIte]
    rw [size_cons, ← Nat.add_assoc]
    exact later

theorem reached_cons_behind {up column : UInt32} (scalar : Char) (rest : List Char)
    (before : up < column) (beyond : ¬ column < up + UInt32.ofNat (lenUtf16 scalar)) :
    ReachedFrom up.toNat (scalar :: rest) column.toNat ↔
      ReachedFrom (up + UInt32.ofNat (lenUtf16 scalar)).toNat rest column.toNat := by
  have counted (front : List Char) :
      ((up + UInt32.ofNat (lenUtf16 scalar)).toNat + utf16Len front) % 2 ^ 32 =
        (up.toNat + utf16Len (scalar :: front)) % 2 ^ 32 := by
    rw [UInt32.toNat_add, UInt32.toNat_ofNat', utf16_len_cons]
    omega
  have narrow := up.toNat_lt
  have order := lt_iff_toNat_lt.mp before
  constructor
  · rintro ⟨front, back, parts, reach⟩
    cases front with
    | nil =>
      -- nothing is reached in front of the first scalar
      exfalso
      change (up.toNat + 0) % 2 ^ 32 = column.toNat ∨ _ at reach
      rcases reach with exact | ⟨other, more, rfl, -, crossing, room⟩
      · omega
      obtain ⟨rfl, rfl⟩ := List.cons.inj parts
      change column.toNat < (up.toNat + 0) % 2 ^ 32 + _ at crossing
      change (up.toNat + 0) % 2 ^ 32 + _ < _ at room
      apply beyond
      rw [lt_iff_toNat_lt, units_advance up scalar (by omega)]
      omega
    | cons first front =>
      obtain ⟨rfl, rfl⟩ := List.cons.inj parts
      rw [← counted front] at reach
      exact ⟨front, back, rfl, reach⟩
  · rintro ⟨front, back, rfl, reach⟩
    rw [counted front] at reach
    exact ⟨scalar :: front, back, rfl, reach⟩

theorem walk_reached (column : UInt32) (content : List Char) (up : UInt32) (bytes : Nat)
    (order : up ≤ column) : (columnIndex column up bytes content ≠ none ∨ unitsAfter up content = column) ↔
      ReachedFrom up.toNat content column.toNat := by
  induction content generalizing up bytes with
  | nil =>
    have narrow := up.toNat_lt
    have start : (up.toNat + utf16Len []) % 2 ^ 32 = up.toNat := by
      change (up.toNat + 0) % 2 ^ 32 = _
      omega
    constructor
    · rintro (some | same)
      · exact absurd rfl some
      · exact ⟨[], [], rfl, .inl (start.trans (congrArg UInt32.toNat same))⟩
    · rintro ⟨front, back, parts, reach⟩
      obtain ⟨rfl, rfl⟩ := append_eq_nil_iff.mp parts.symm
      rcases reach with exact | ⟨other, more, nothing, -⟩
      · exact .inr (UInt32.toNat_inj.mp (start.symm.trans exact))
      · cases nothing
  | cons scalar rest ih =>
    have narrow := up.toNat_lt
    have start : (up.toNat + utf16Len []) % 2 ^ 32 = up.toNat := by
      change (up.toNat + 0) % 2 ^ 32 = _
      omega
    rw [columnIndex]
    by_cases here : up = column
    · rw [if_pos here]
      exact iff_of_true (.inl (some_ne_none _))
        ⟨[], scalar :: rest, rfl, .inl (start.trans (congrArg UInt32.toNat here))⟩
    have before : up < column := UInt32.lt_of_le_of_ne order here
    rw [if_neg here]
    by_cases inside : column < up + UInt32.ofNat (lenUtf16 scalar)
    · rw [if_pos ⟨before, inside⟩]
      refine iff_of_true (.inl (some_ne_none _)) ⟨[], scalar :: rest, rfl, .inr ⟨scalar, rest, rfl, ?_⟩⟩
      have first := lt_iff_toNat_lt.mp before
      have second := lt_iff_toNat_lt.mp inside
      have few : lenUtf16 scalar ≤ 2 := by
        unfold lenUtf16
        split <;> omega
      rw [UInt32.toNat_add, UInt32.toNat_ofNat'] at second
      omega
    · rw [if_neg (fun both => inside both.2)]
      simp only [inside]
      rw [reached_cons_behind scalar rest before inside]
      exact ih _ _ (UInt32.not_lt.mp inside)

/-- In a line of fewer than 2^32 units the column is reached when it is not behind the content. -/
theorem reached_narrow {content : List Char} (narrow : utf16Len content < 2 ^ 32) (column : UInt32) :
    Reached content column.toNat ↔ column.toNat ≤ utf16Len content := by
  have parts (front back : List Char) :
      utf16Len (front ++ back) = utf16Len front + utf16Len back := weight_append _ _ _
  constructor
  · rintro ⟨front, back, rfl, reach⟩
    rw [parts] at narrow ⊢
    rcases reach with exact | ⟨scalar, rest, rfl, -, crossing, -⟩
    · omega
    · rw [utf16_len_cons]
      omega
  · intro inside
    obtain ⟨front, back, reaches⟩ := reaches_exists content column.toNat
    have fits := reaches.fits
    rw [reaches.parts, parts] at narrow inside
    refine ⟨front, back, reaches.parts, ?_⟩
    cases back with
    | nil =>
      change column.toNat ≤ utf16Len front + 0 at inside
      exact .inl (by omega)
    | cons scalar rest =>
      have crossing := reaches.next scalar rest rfl
      rw [utf16_len_cons] at narrow
      by_cases same : utf16Len front = column.toNat
      · exact .inl (by omega)
      · exact .inr ⟨scalar, rest, rfl, by omega, by omega, by omega⟩

theorem lf_lines_from (current text : List Char) : lfLinesFrom current text =
      if (lfCut text).separator = [] then [current ++ (lfCut text).content]
      else (current ++ (lfCut text).content ++ (lfCut text).separator) ::
        lfLines (lfCut text).rest := by
  induction text generalizing current with
  | nil => simp [lfLinesFrom, lfCut, lfSplit]
  | cons scalar rest ih =>
    change _ = if (lfSplit (scalar :: rest)).2.1 = [] then [current ++ (lfSplit (scalar :: rest)).1]
      else (current ++ (lfSplit (scalar :: rest)).1 ++ (lfSplit (scalar :: rest)).2.1) ::
        lfLines (lfSplit (scalar :: rest)).2.2
    unfold lfLinesFrom lfSplit
    split
    · simp [lfLines]
    split
    · rename_i crlf
      cases rest with
      | nil => simp at crlf
      | cons next more =>
        obtain rfl : next = '\n' := by simpa using crlf.2
        rw [lfLinesFrom, if_pos rfl, crlf.1]
        simp [lfLines]
    · have tail := ih (current ++ [scalar])
      simpa [lfCut] using tail

theorem lf_lines_cut (text : List Char) : lfLines text =
      if (lfCut text).separator = [] then [(lfCut text).content]
      else ((lfCut text).content ++ (lfCut text).separator) :: lfLines (lfCut text).rest :=
  lf_lines_from [] text

/-- The line of a number, what lies before it, and whether it is the last one. -/
theorem lf_lines_at {text before tail : List Char} {line : Nat}
    (starts : StartsAt lfCut text line before tail) :
    (lfLines text)[line]? = some ((lfCut tail).content ++ (lfCut tail).separator) ∧
      ((lfLines text).take line).flatten = before := by
  induction starts with
  | first text =>
    rw [lf_lines_cut]
    split
    · rename_i bare
      rw [bare, append_nil]
      exact ⟨rfl, rfl⟩
    · exact ⟨rfl, rfl⟩
  | next text line before tail separated _ ih =>
    rw [lf_lines_cut, if_neg separated, getElem?_cons_succ, take_succ_cons, flatten_cons, ih.2]
    exact ⟨ih.1, rfl⟩

theorem lf_lines_start {text : List Char} {line : Nat} (inside : line < (lfLines text).length) :
    ∃ before tail, StartsAt lfCut text line before tail := by
  induction line generalizing text with
  | zero => exact ⟨[], text, .first text⟩
  | succ line ih =>
    rw [lf_lines_cut] at inside
    split at inside
    · exact absurd inside (by simp)
    rename_i separated
    rw [length_cons] at inside
    obtain ⟨before, tail, starts⟩ := @ih (lfCut text).rest (by omega)
    exact ⟨_, tail, .next text line before tail separated starts⟩

/-- Without a CR a line ends in LF or not at all. -/
theorem only_lf_separator {text before tail : List Char} {line : Nat} (onlyLf : OnlyLf text)
    (starts : StartsAt lfCut text line before tail) :
    (lfCut tail).separator = [] ∨ (lfCut tail).separator = ['\n'] := by
  rcases lf_separator tail with bare | ⟨lf, -⟩ | crlf
  · exact .inl bare
  · exact .inr lf
  · have among : '\r' ∈ text := by
      rw [line_whole (start_line starts), crlf]
      simp
    exact absurd (mem_cons_self) (onlyLf '\r' among)

theorem line_content_cut (tail : List Char)
    (separator : (lfCut tail).separator = [] ∨ (lfCut tail).separator = ['\n']) :
    lineContent ((lfCut tail).content ++ (lfCut tail).separator) = (lfCut tail).content ∧
      (((lfCut tail).content ++ (lfCut tail).separator).getLast? = some '\n' ↔
        (lfCut tail).separator = ['\n']) := by
  rcases separator with bare | lf
  · have unbroken : (lfCut tail).content.getLast? ≠ some '\n' :=
      fun last => lf_content tail (mem_of_getLast? last)
    rw [bare, append_nil]
    refine ⟨?_, iff_of_false unbroken (by simp)⟩
    rw [lineContent, stripSuffix, if_neg unbroken, getD_none]
  · rw [lf]
    refine ⟨?_, iff_of_true (by simp) rfl⟩
    rw [lineContent, strip_suffix_append, getD_some]

/-- On an existing line of a text without other line breaks than LF, the converters agree exactly
when the line has no newline or the column lies within it. -/
theorem converters_agree_within_line (ropeLines : List Char → List (List Char))
    (documented : Documented ropeLines) (text : List Char) (onlyLf : OnlyLf text)
    (line column : UInt32) (lineText : List Char)
    (existing : (ropeLines text)[line.toNat]? = some lineText) :
    ∃ mapped converted, lspPosToByte ropeLines text line column = some mapped ∧
      utf16LineColToOffset text line column = some converted ∧
      (mapped = converted ↔
        lineText.getLast? ≠ some '\n' ∨ Reached (lineContent lineText) column.toNat) ∧
      (utf16Len (lineContent lineText) < 2 ^ 32 → (Reached (lineContent lineText) column.toNat ↔
          column.toNat ≤ utf16Len (lineContent lineText))) := by
  have divided := documented text onlyLf
  obtain ⟨before, tail, starts⟩ := lf_lines_start (by
    rw [← divided]
    exact (List.getElem?_eq_some_iff.mp existing).1)
  obtain ⟨here, front⟩ := lf_lines_at starts
  rw [← divided] at here front
  obtain rfl := Option.some.inj (existing.symm.trans here)
  have separator := only_lf_separator onlyLf starts
  obtain ⟨content, newline⟩ := line_content_cut tail separator
  have mapped : lspPosToByte ropeLines text line column =
      some (size before + columnOffset column 0 0 ((lfCut tail).content ++ (lfCut tail).separator)) := by
    simp only [lspPosToByte, existing, front]
  have converted := (line_col_offset_walk text line column [] text 0 (.first text)
    (Nat.zero_le _)).1 before tail starts
  refine ⟨_, _, mapped, converted, ?_, fun narrow => reached_narrow narrow column⟩
  have walk := column_offset_walk column (lfCut tail).content (lfCut tail).separator 0 0
    UInt32.zero_le
  have reached := walk_reached column (lfCut tail).content 0 0 UInt32.zero_le
  rw [content, Nat.add_left_cancel_iff, ne_eq, newline]
  cases stop : columnIndex column 0 0 (lfCut tail).content with
  | some byteIndex =>
    rw [stop] at walk reached
    exact iff_of_true walk (.inr (reached.mp (.inl (some_ne_none _))))
  | none =>
    rw [stop] at walk reached
    obtain ⟨order, goesOn⟩ := walk
    rw [goesOn, getD_none, Nat.zero_add]
    rcases separator with bare | lf
    · rw [bare]
      exact iff_of_true rfl (.inl (by simp))
    rw [lf, columnOffset, mapper_units]
    change _ ↔ _ ∨ ReachedFrom 0 _ _
    have whole : ReachedFrom 0 (lfCut tail).content column.toNat ↔
        unitsAfter 0 (lfCut tail).content = column :=
      reached.symm.trans ⟨fun either => either.resolve_left (fun some => some rfl), .inr⟩
    rw [whole]
    by_cases same : unitsAfter 0 (lfCut tail).content = column
    · rw [if_pos (same ▸ UInt32.le_refl _)]
      exact iff_of_true rfl (.inr same)
    -- the newline is one more unit that the mapper walks over
    have behind := UInt32.lt_of_le_of_ne order same
    have next : ¬ column <
        unitsAfter 0 (lfCut tail).content + UInt32.ofNat (lenUtf16 '\n') := by
      have less := lt_iff_toNat_lt.mp behind
      have limit := column.toNat_lt
      have one : lenUtf16 '\n' = 1 := rfl
      rw [lt_iff_toNat_lt, units_advance _ _ (by omega)]
      omega
    rw [if_neg (UInt32.not_le.mpr behind)]
    simp only [next, ↓reduceIte, columnOffset]
    refine iff_of_false ?_ (by simp [same])
    have width : Char.utf8Size '\n' = 1 := rfl
    omega

/-- A column behind a line's newline: the mapper answers with the start of the next line. -/
theorem column_behind_newline :
    lspPosToByte lfLines ['a', '\n', 'b'] 0 2 = some 2 ∧
      utf16LineColToOffset ['a', '\n', 'b'] 0 2 = some 1 := by
  decide

theorem column_at_line_end :
    ∃ mapped converted, lspPosToByte lfLines ['a', '\n', 'b'] 0 1 = some mapped ∧
      utf16LineColToOffset ['a', '\n', 'b'] 0 1 = some converted ∧ mapped = converted := by
  obtain ⟨mapped, converted, first, second, agree, within⟩ := converters_agree_within_line lfLines
    (fun _ _ => rfl) ['a', '\n', 'b'] (by simp [OnlyLf]) 0 1 ['a', '\n'] rfl
  exact ⟨mapped, converted, first, second, agree.mpr (.inr ((within (by decide)).mpr (by decide)))⟩

end Positions

section Edits

/-- The forward loop of `apply_edit_utf8`. -/
def snapForward (text : List Char) (offset : Nat) : Nat :=
  if offset < size text ∧ isCharBoundary text offset = false then snapForward text (offset + 1)
  else offset
termination_by size text - offset

/-- The backward loop of `apply_edit_utf8`. -/
def snapBackward (text : List Char) (start : Nat) : Nat → Nat
  | 0 => 0
  | offset + 1 =>
    if start < offset + 1 ∧ isCharBoundary text (offset + 1) = false then
      snapBackward text start offset
    else offset + 1

/-- `String::replace_range`; it panics off a boundary and on a reversed range. -/
def replaceRange (text : List Char) (start stop : Nat) (replacement : List Char) : Option (List Char) :=
  if start ≤ stop then do
    let front ← splitAtByte text start
    let back ← splitAtByte text stop
    some (front.1 ++ replacement ++ back.2)
  else none

def applyEditUtf8 (text : List Char) (startByte oldEndByte : Nat) (replacement : List Char) :
    Option (List Char) :=
  if isCharBoundary text startByte = false then
    let corrected := snapForward text startByte
    if oldEndByte < corrected then some text
    else replaceRange text corrected oldEndByte replacement
  else if isCharBoundary text oldEndByte = false then
    replaceRange text startByte (snapBackward text startByte oldEndByte) replacement
  else replaceRange text startByte oldEndByte replacement

/-- The start snapped forward, the end backward to boundaries, and the text between them replaced,
the rest kept byte for byte. -/
def Spliced (text : List Char) (startByte oldEndByte : Nat) (replacement : List Char) : Prop :=
  ∃ start stop result before middle after,
    IsLeast {place | isCharBoundary text place = true ∧ startByte ≤ place} start ∧
      IsGreatest {place | isCharBoundary text place = true ∧ place ≤ oldEndByte} stop ∧
      start ≤ stop ∧ applyEditUtf8 text startByte oldEndByte replacement = some result ∧
      text = before ++ middle ++ after ∧ size before = start ∧ size (before ++ middle) = stop ∧
      result = before ++ replacement ++ after ∧
      encode result = (encode text).take start ++ encode replacement ++ (encode text).drop stop

variable {text : List Char}

theorem snap_forward_least {offset : Nat} (inside : offset ≤ size text) :
    IsLeast {place | isCharBoundary text place = true ∧ offset ≤ place} (snapForward text offset) := by
  induction offset using snapForward.induct text with
  | case1 offset more ih =>
    obtain ⟨⟨boundary, behind⟩, least⟩ := ih more.1
    rw [snapForward, if_pos more]
    refine ⟨⟨boundary, by omega⟩, ?_⟩
    rintro place ⟨cut, after⟩
    have apart : place ≠ offset := by
      rintro rfl
      rw [more.2] at cut
      cases cut
    exact least ⟨cut, by omega⟩
  | case2 offset done =>
    rw [snapForward, if_neg done]
    refine ⟨⟨?_, Nat.le_refl _⟩, fun place cut => cut.2⟩
    by_cases past : offset < size text
    · simpa [past] using done
    · obtain rfl : offset = size text := by omega
      exact (boundary_iff _ _).mpr ⟨text, [], (append_nil _).symm, rfl⟩

theorem snap_backward_greatest {start offset : Nat} (order : start ≤ offset)
    (boundary : isCharBoundary text start = true) :
    IsGreatest {place | isCharBoundary text place = true ∧ place ≤ offset}
      (snapBackward text start offset) ∧ start ≤ snapBackward text start offset := by
  induction offset with
  | zero =>
    obtain rfl : start = 0 := by omega
    exact ⟨⟨⟨boundary, Nat.le_refl _⟩, fun place cut => cut.2⟩, Nat.le_refl _⟩
  | succ offset ih =>
    rw [snapBackward]
    split
    · rename_i more
      obtain ⟨⟨⟨cut, low⟩, greatest⟩, order⟩ := ih (by omega)
      refine ⟨⟨⟨cut, by omega⟩, ?_⟩, order⟩
      rintro place ⟨other, below⟩
      have apart : place ≠ offset + 1 := by
        rintro rfl
        rw [more.2] at other
        cases other
      exact greatest ⟨other, by omega⟩
    · rename_i done
      refine ⟨⟨⟨?_, Nat.le_refl _⟩, fun place cut => cut.2⟩, order⟩
      by_cases same : start = offset + 1
      · exact same ▸ boundary
      · simpa [show start < offset + 1 by omega] using done

variable {replacement : List Char}

theorem replace_range_boundaries {start stop : Nat} (order : start ≤ stop)
    (starts : isCharBoundary text start = true) (stops : isCharBoundary text stop = true) :
    ∃ before middle after, text = before ++ middle ++ after ∧ size before = start ∧
      size (before ++ middle) = stop ∧
      replaceRange text start stop replacement = some (before ++ replacement ++ after) := by
  obtain ⟨before, rest, whole, first⟩ := (boundary_iff _ _).mp starts
  obtain ⟨front, after, parts, last⟩ := (boundary_iff _ _).mp stops
  have cut := (split_at_byte_iff text start before rest).mpr ⟨whole, first⟩
  have again := (split_at_byte_iff text stop front after).mpr ⟨parts, last⟩
  have split : ∃ middle, front = before ++ middle := by
    rcases append_eq_append_iff.mp (whole.symm.trans parts) with ⟨gap, grown, -⟩ | ⟨gap, shrunk, -⟩
    · exact ⟨gap, grown⟩
    · rw [shrunk, size_append] at first
      obtain rfl := size_zero gap (by omega)
      exact ⟨[], by rw [shrunk]; simp⟩
  obtain ⟨middle, rfl⟩ := split
  refine ⟨before, middle, after, parts, first, last, ?_⟩
  rw [replaceRange, if_pos order, cut, again]
  rfl

theorem replace_range_some {result : List Char} {start stop : Nat}
    (replaced : replaceRange text start stop replacement = some result) :
    isCharBoundary text stop = true := by
  unfold replaceRange at replaced
  split at replaced
  · simp only [bind_eq_bind, bind_eq_some_iff] at replaced
    obtain ⟨front, -, back, cut, -⟩ := replaced
    obtain ⟨parts, width⟩ := (split_at_byte_iff _ _ _ _).mp cut
    exact (boundary_iff _ _).mpr ⟨_, _, parts, width⟩
  · cases replaced

theorem spliced_of_replace {startByte oldEndByte start stop : Nat}
    (least : IsLeast {place | isCharBoundary text place = true ∧ startByte ≤ place} start)
    (greatest : IsGreatest {place | isCharBoundary text place = true ∧ place ≤ oldEndByte} stop)
    (order : start ≤ stop) (applied : applyEditUtf8 text startByte oldEndByte replacement =
      replaceRange text start stop replacement) : Spliced text startByte oldEndByte replacement := by
  obtain ⟨before, middle, after, whole, first, last, replaced⟩ :=
    @replace_range_boundaries text replacement start stop order least.1.1 greatest.1.1
  refine ⟨start, stop, _, before, middle, after, least, greatest, order, applied.trans replaced, whole,
    first, last, rfl, ?_⟩
  have front : (encode text).take start = encode before := by
    rw [whole, append_assoc, encode_append, ← first]
    exact take_left' rfl
  have back : (encode text).drop stop = encode after := by
    rw [whole, encode_append, ← last]
    exact drop_left' rfl
  rw [front, back, encode_append, encode_append]

/-- The edit replaces exactly the snapped range when one of its ends is a boundary. Otherwise it
panics, or leaves the text as it is when both lie inside one scalar. -/
theorem apply_edit_spliced_iff (text : List Char) (startByte oldEndByte : Nat)
    (replacement : List Char) (order : startByte ≤ oldEndByte) (inside : oldEndByte ≤ size text) :
    Spliced text startByte oldEndByte replacement ↔
      isCharBoundary text startByte = true ∨ isCharBoundary text oldEndByte = true := by
  have forward := @snap_forward_least text startByte (by omega)
  constructor
  · rintro ⟨start, stop, result, -, -, -, least, greatest, ordered, applied, -⟩
    by_contra neither
    obtain ⟨starts, stops⟩ := not_or.mp neither
    rw [Bool.not_eq_true] at starts stops
    rw [applyEditUtf8, if_pos starts] at applied
    dsimp only at applied
    split at applied
    · rename_i crossed
      obtain rfl := forward.unique least
      have below : stop ≤ oldEndByte := greatest.1.2
      omega
    · rw [replace_range_some applied] at stops
      cases stops
  · intro either
    by_cases starts : isCharBoundary text startByte = true
    · have least : IsLeast {place | isCharBoundary text place = true ∧ startByte ≤ place} startByte :=
        ⟨⟨starts, Nat.le_refl _⟩, fun place cut => cut.2⟩
      obtain ⟨greatest, ordered⟩ := snap_backward_greatest order starts
      refine spliced_of_replace least greatest ordered ?_
      rw [applyEditUtf8, if_neg (by simp [starts])]
      split
      · rfl
      rename_i stops
      have same : snapBackward text startByte oldEndByte = oldEndByte := by
        have top := greatest.2 ⟨by simpa using stops, Nat.le_refl _⟩
        have below : snapBackward text startByte oldEndByte ≤ oldEndByte := greatest.1.2
        omega
      rw [same]
    · have stops := either.resolve_left starts
      have greatest : IsGreatest {place | isCharBoundary text place = true ∧ place ≤ oldEndByte}
          oldEndByte := ⟨⟨stops, Nat.le_refl _⟩, fun place cut => cut.2⟩
      have ordered : snapForward text startByte ≤ oldEndByte := forward.2 ⟨stops, order⟩
      refine spliced_of_replace forward greatest ordered ?_
      rw [applyEditUtf8, if_pos (by simpa using starts)]
      exact if_neg (Nat.not_lt.mpr ordered)

/-- Ends inside two neighbouring scalars. -/
theorem edit_across_scalars_panics :
    applyEditUtf8 ['é', '€'] 1 3 ['x'] = none ∧ ¬ Spliced ['é', '€'] 1 3 ['x'] := by
  have snapped : snapForward ['é', '€'] 1 = 2 := by
    rw [snapForward, if_pos (by decide), snapForward, if_neg (by decide)]
  have panics : applyEditUtf8 ['é', '€'] 1 3 ['x'] = none := by
    rw [applyEditUtf8, snapped]
    decide
  refine ⟨panics, ?_⟩
  rintro ⟨start, stop, result, -, -, -, -, -, -, applied, -⟩
  rw [panics] at applied
  cases applied

theorem edit_into_scalar_spliced : Spliced ['é', '€'] 0 3 ['x'] :=
  (apply_edit_spliced_iff ['é', '€'] 0 3 ['x'] (by decide) (by decide)).mpr (.inl (by decide))

end Edits

end PerlLsp.PositionMapper
