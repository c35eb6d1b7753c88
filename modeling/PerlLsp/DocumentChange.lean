import PerlLsp.Document
import PerlLsp.PositionMapper

/-! A ranged change of `DocumentState::apply_change` beside `utf16_line_col_to_offset`. Both resolve
a position by a walk over its line. The change walks the line with its newline and goes on behind
the scalar that the column lies in; the converter stops before it, and its counter is a `u32`. The
gaps between the two walks decide what becomes of the text. -/
namespace PerlLsp.DocumentChange
open Utf8 TextLines PositionConvert Document DocumentState List
open PositionMapper (lfLines lfLinesFrom OnlyLf Documented lineContent lf_lines_at lf_lines_start
  only_lf_separator)

section Gaps

def walked (col : UInt32) : UInt32 → List Char → List Char
  | _, [] => []
  | up, scalar :: rest =>
    if up = col then []
    else if up < col ∧ col < up + UInt32.ofNat (lenUtf16 scalar) then []
    else
      let up := up + UInt32.ofNat (lenUtf16 scalar)
      if col < up then [] else scalar :: walked col up rest

/-- What the change passes and the converter does not, and the other way round. -/
structure Gap where
  ahead : List Char
  short : List Char
deriving DecidableEq

/-- The gap of a column in the rest of a line, behind a number of units: the change is ahead by the
newline that the column is behind, or by the scalar that it is inside of. Where that scalar's units
do not fit a `u32`, the converter counts the line behind it anew. -/
def gapFrom (column : UInt32) : Nat → List Char → Gap
  | _, [] => ⟨[], []⟩
  | units, scalar :: rest =>
    if column.toNat ≤ units then ⟨[], []⟩
    else if scalar = '\n' then ⟨['\n'], []⟩
    else if column.toNat < units + lenUtf16 scalar then
      if units + lenUtf16 scalar < 2 ^ 32 then ⟨[scalar], []⟩
      else ⟨[], walked column 0 (lineContent rest)⟩
    else gapFrom column (units + lenUtf16 scalar) rest

def gap (text : List Char) (line column : UInt32) : Gap :=
  match (lfLines text)[line.toNat]? with
  | none => ⟨[], []⟩
  | some lineText => gapFrom column 0 lineText

theorem column_index_walked (col up : UInt32) (byteIndex : Nat) (content : List Char) :
    (columnIndex col up byteIndex content).getD (byteIndex + size content) =
      byteIndex + size (walked col up content) := by
  induction content generalizing up byteIndex with
  | nil => rfl
  | cons scalar rest ih =>
    rw [columnIndex, walked]
    split
    · rfl
    split
    · rfl
    dsimp only
    split
    · rfl
    · rw [size_cons, size_cons, ← Nat.add_assoc, ih, Nat.add_assoc]

theorem walked_front (col up : UInt32) (content : List Char) : walked col up content <+: content := by
  induction content generalizing up with
  | nil => exact prefix_refl _
  | cons scalar rest ih =>
    rw [walked]
    split
    · exact nil_prefix
    split
    · exact nil_prefix
    dsimp only
    split
    · exact nil_prefix
    · exact cons_prefix_cons.mpr ⟨rfl, ih _⟩

/-- One side of a gap is empty, and they make up for the difference of the walks. -/
theorem gap_parts (column : UInt32) (content separator : List Char) (units : Nat)
    (ends : separator = [] ∨ separator = ['\n']) (unbroken : '\n' ∉ content) (order : units ≤ column.toNat) :
    (content ++ separator).take (charsBeforeColumn column.toNat units (content ++ separator)) ++
        (gapFrom column units (content ++ separator)).short =
      walked column (UInt32.ofNat units) content ++ (gapFrom column units (content ++ separator)).ahead ∧
    ((gapFrom column units (content ++ separator)).ahead = [] ∨
      (gapFrom column units (content ++ separator)).short = []) := by
  have limit := column.toNat_lt
  induction content generalizing units with
  | nil =>
    rcases ends with rfl | rfl
    · exact ⟨rfl, .inl rfl⟩
    rw [nil_append, charsBeforeColumn, gapFrom]
    by_cases here : column.toNat ≤ units
    · rw [if_pos here, if_pos here]
      exact ⟨rfl, .inl rfl⟩
    · rw [if_neg here, if_neg here, if_pos rfl]
      exact ⟨rfl, .inr rfl⟩
  | cons scalar rest ih =>
    have stored : (UInt32.ofNat units).toNat = units := by
      rw [UInt32.toNat_ofNat', Nat.mod_eq_of_lt (by omega)]
    have few : 1 ≤ lenUtf16 scalar ∧ lenUtf16 scalar ≤ 2 := by
      unfold lenUtf16
      split <;> omega
    have other : scalar ≠ '\n' := fun same => unbroken (same ▸ mem_cons_self)
    rw [cons_append, charsBeforeColumn, gapFrom, walked]
    by_cases here : column.toNat ≤ units
    · have same : UInt32.ofNat units = column := UInt32.toNat_inj.mp (by omega)
      rw [if_pos here, if_pos here, if_pos same]
      exact ⟨rfl, .inl rfl⟩
    have apart : UInt32.ofNat units ≠ column := by
      rintro rfl
      omega
    have before : UInt32.ofNat units < column := UInt32.lt_iff_toNat_lt.mpr (by omega)
    rw [if_neg here, if_neg here, if_neg other, if_neg apart]
    by_cases inside : column.toNat < units + lenUtf16 scalar
    · have stops : charsBeforeColumn column.toNat (units + lenUtf16 scalar) (rest ++ separator) = 0 := by
        cases rest ++ separator with
        | nil => rfl
        | cons next more => rw [charsBeforeColumn, if_pos (by omega)]
      rw [if_pos inside, stops]
      by_cases fits : units + lenUtf16 scalar < 2 ^ 32
      · have crossing : column < UInt32.ofNat units + UInt32.ofNat (lenUtf16 scalar) := by
          rw [UInt32.lt_iff_toNat_lt, units_advance _ _ (by omega)]
          omega
        rw [if_pos fits, if_pos ⟨before, crossing⟩]
        exact ⟨rfl, .inr rfl⟩
      have wraps : UInt32.ofNat units + UInt32.ofNat (lenUtf16 scalar) = 0 := by
        apply UInt32.toNat_inj.mp
        rw [UInt32.toNat_add, UInt32.toNat_ofNat', UInt32.toNat_ofNat', UInt32.toNat_zero]
        omega
      have content : lineContent (rest ++ separator) = rest := by
        rcases ends with rfl | rfl
        · have last : rest.getLast? ≠ some '\n' :=
            fun found => unbroken (mem_cons_of_mem _ (mem_of_getLast? found))
          rw [append_nil, lineContent, stripSuffix, if_neg last, Option.getD_none]
        · rw [lineContent, strip_suffix_append, Option.getD_some]
      rw [if_neg fits, wraps]
      rw [content]
      exact ⟨by simp, .inl rfl⟩
    · have further : UInt32.ofNat units + UInt32.ofNat (lenUtf16 scalar) =
          UInt32.ofNat (units + lenUtf16 scalar) := by simp
      have beyond : ¬ column < UInt32.ofNat (units + lenUtf16 scalar) := by
        rw [UInt32.lt_iff_toNat_lt, UInt32.toNat_ofNat', Nat.mod_eq_of_lt (by omega)]
        exact inside
      have rests := ih (units + lenUtf16 scalar)
        (fun member => unbroken (mem_cons_of_mem _ member)) (by omega)
      rw [if_neg inside, further, if_neg (fun both => beyond both.2)]
      rw [if_neg beyond, take_succ_cons, cons_append, cons_append]
      exact ⟨by rw [rests.1], rests.2⟩

end Gaps

section Positions
variable {ropeLines : List Char → List (List Char)} {rope : Rope} {line column : UInt32}

theorem lf_lines_flatten (text : List Char) : (lfLines text).flatten = text := by
  have gathered (current : List Char) : (lfLinesFrom current text).flatten = current ++ text := by
    induction text generalizing current with
    | nil => simp [lfLinesFrom]
    | cons scalar rest ih =>
      rw [lfLinesFrom]
      split
      next isLf => simp [ih, isLf]
      next => simp [ih]
  exact gathered []

structure Resolved (ropeLines : List Char → List (List Char)) (rope : Rope) (line column : UInt32)
    (reached reachedRest front back : List Char) : Prop where
  whole : rope.text = reached ++ reachedRest
  index : lspPositionToCharIdx ropeLines rope line.toNat column.toNat = reached.length
  parts : rope.text = front ++ back
  offset : utf16LineColToOffset rope.text line column = some (size front)
  apart : reached ++ (gap rope.text line column).short = front ++ (gap rope.text line column).ahead
  oneSide : (gap rope.text line column).ahead = [] ∨ (gap rope.text line column).short = []

theorem index_on_line {line column : Nat} {lineText : List Char}
    (found : (ropeLines rope.text)[line]? = some lineText) :
    lspPositionToCharIdx ropeLines rope line column = ((ropeLines rope.text).take line).flatten.length +
      min (charsBeforeColumn column 0 lineText) lineText.length := by
  unfold lspPositionToCharIdx
  dsimp only
  rw [found]

theorem index_behind_lines {line column : Nat} (missing : (ropeLines rope.text)[line]? = none) :
    lspPositionToCharIdx ropeLines rope line column = rope.text.length := by
  unfold lspPositionToCharIdx
  dsimp only
  rw [missing]

theorem resolved_exists (documented : Documented ropeLines) (onlyLf : OnlyLf rope.text)
    (line column : UInt32) : ∃ reached reachedRest front back,
      Resolved ropeLines rope line column reached reachedRest front back := by
  have divided := documented rope.text onlyLf
  have walk := line_col_offset_walk rope.text line column [] rope.text 0 (.first _) (Nat.zero_le _)
  by_cases known : ∃ before tail, StartsAt lfCut rope.text line.toNat before tail
  · obtain ⟨before, tail, starts⟩ := known
    obtain ⟨here, fronts⟩ := lf_lines_at starts
    have apart := gap_parts column (lfCut tail).content (lfCut tail).separator 0
      (only_lf_separator onlyLf starts) (lf_content tail) (Nat.zero_le _)
    obtain ⟨rest, contents⟩ := walked_front column 0 (lfCut tail).content
    have offset : utf16LineColToOffset rope.text line column =
        some (size before + size (walked column 0 (lfCut tail).content)) := by
      have stops := column_index_walked column 0 0 (lfCut tail).content
      rw [Nat.zero_add, Nat.zero_add] at stops
      rw [← stops]
      exact walk.1 before tail starts
    have whole : rope.text = before ++ ((lfCut tail).content ++ (lfCut tail).separator ++
        (lfCut tail).rest) := by
      rw [← (lfCut tail).whole]
      exact start_whole starts
    have opened : gap rope.text line column =
        gapFrom column 0 ((lfCut tail).content ++ (lfCut tail).separator) := by
      rw [gap, here]
    have index := @index_on_line ropeLines rope line.toNat column.toNat _ (divided ▸ here)
    rw [divided, fronts] at index
    rw [← opened] at apart
    generalize charsBeforeColumn column.toNat 0
      ((lfCut tail).content ++ (lfCut tail).separator) = count at apart index
    refine ⟨before ++ ((lfCut tail).content ++ (lfCut tail).separator).take count,
      ((lfCut tail).content ++ (lfCut tail).separator).drop count ++ (lfCut tail).rest,
      before ++ walked column 0 (lfCut tail).content,
      rest ++ (lfCut tail).separator ++ (lfCut tail).rest, ?_, ?_, ?_, ?_, ?_, apart.2⟩
    · rw [whole]
      conv_lhs => rw [← take_append_drop count ((lfCut tail).content ++ (lfCut tail).separator)]
      simp only [append_assoc]
    · rw [index]
      simp only [length_append, length_take]
    · rw [whole]
      conv_lhs => rw [← contents]
      simp only [append_assoc]
    · rw [offset, size_append]
    · rw [append_assoc, append_assoc]
      exact congrArg (before ++ ·) apart.1
  · have missing : (lfLines rope.text)[line.toNat]? = none := by
      apply getElem?_eq_none
      by_contra inside
      exact known (lf_lines_start (by omega))
    have noGap : gap rope.text line column = ⟨[], []⟩ := by rw [gap, missing]
    refine ⟨rope.text, [], rope.text, [], by simp, ?_, by simp, walk.2 known, ?_, ?_⟩
    · exact index_behind_lines (divided ▸ missing)
    · rw [noGap]
    · rw [noGap]
      exact .inl rfl

/-- The rests differ by the gap as well, the other way round. -/
theorem rests_apart {reached reachedRest front back : List Char}
    (resolved : Resolved ropeLines rope line column reached reachedRest front back) :
    (gap rope.text line column).short ++ back = (gap rope.text line column).ahead ++ reachedRest := by
  have same := resolved.whole.symm.trans resolved.parts
  have apart := resolved.apart
  rcases resolved.oneSide with none | none
  · rw [none, append_nil] at apart
    rw [← apart, append_assoc] at same
    rw [none, nil_append, append_cancel_left same]
  · rw [none, append_nil] at apart
    rw [apart, append_assoc] at same
    rw [none, nil_append, append_cancel_left same]

theorem chars_before_mono {left right : Nat} (order : left ≤ right) (units : Nat) (lineText : List Char) :
    charsBeforeColumn left units lineText ≤ charsBeforeColumn right units lineText := by
  induction lineText generalizing units with
  | nil => exact Nat.le_refl 0
  | cons scalar rest ih =>
    have further := ih (units + lenUtf16 scalar)
    rw [charsBeforeColumn, charsBeforeColumn]
    split
    next => exact Nat.zero_le _
    next beyond =>
      rw [if_neg (by omega)]
      omega

theorem take_line {lines : List (List Char)} {line : Nat} {lineText : List Char}
    (found : lines[line]? = some lineText) :
    (lines.take (line + 1)).flatten.length = (lines.take line).flatten.length + lineText.length := by
  rw [take_add_one, found]
  simp

theorem take_mono (lines : List (List Char)) {left right : Nat} (order : left ≤ right) :
    (lines.take left).flatten.length ≤ (lines.take right).flatten.length := by
  have front : lines.take left <+: lines.take right := take_prefix_take_left order
  obtain ⟨more, grown⟩ := front
  rw [← grown, flatten_append, length_append]
  exact Nat.le_add_right _ _

/-- A later position has no smaller index. -/
theorem index_mono (whole : (ropeLines rope.text).flatten.length = rope.text.length)
    {startLine startChar endLine endChar : Nat}
    (order : startLine < endLine ∨ startLine = endLine ∧ startChar ≤ endChar) :
    lspPositionToCharIdx ropeLines rope startLine startChar ≤
      lspPositionToCharIdx ropeLines rope endLine endChar := by
  have upTo (count : Nat) : ((ropeLines rope.text).take count).flatten.length ≤ rope.text.length := by
    have all := take_mono (ropeLines rope.text) (Nat.le_max_left count (ropeLines rope.text).length)
    rwa [take_of_length_le (Nat.le_max_right _ _), whole] at all
  cases ends : (ropeLines rope.text)[endLine]? with
  | none =>
    rw [index_behind_lines ends]
    cases starts : (ropeLines rope.text)[startLine]? with
    | none => exact Nat.le_of_eq (index_behind_lines starts)
    | some lineText =>
      rw [index_on_line starts]
      have lines := upTo (startLine + 1)
      rw [take_line starts] at lines
      omega
  | some endText =>
    have inside := (List.getElem?_eq_some_iff.mp ends).1
    rw [index_on_line ends]
    rcases order with before | ⟨rfl, columns⟩
    · obtain ⟨lineText, starts⟩ : ∃ lineText, (ropeLines rope.text)[startLine]? = some lineText :=
        ⟨_, getElem?_eq_getElem (by omega)⟩
      rw [index_on_line starts]
      have lines := take_mono (ropeLines rope.text) (by omega : startLine + 1 ≤ endLine)
      rw [take_line starts] at lines
      omega
    · rw [index_on_line ends]
      have chars := chars_before_mono columns 0 endText
      omega

end Positions

section Changes
variable {ropeLines : List Char → List (List Char)} {rope : Rope}

/-- The change puts the new text between the parts that its two indices leave. -/
theorem changed_rope_parts {startLine startChar endLine endChar : Nat} (newText : List Char)
    {front between back : List Char} (whole : rope.text = front ++ between ++ back)
    (starts : lspPositionToCharIdx ropeLines rope startLine startChar = front.length)
    (ends : lspPositionToCharIdx ropeLines rope endLine endChar = (front ++ between).length) :
    (changedRope ropeLines rope startLine startChar endLine endChar newText).text =
      front ++ newText ++ back := by
  have front_cut : rope.text.take front.length = front := by
    rw [whole, append_assoc]
    exact take_left' rfl
  have back_cut : rope.text.drop (front ++ between).length = back := by
    rw [whole]
    exact drop_left' rfl
  have removed : (if front.length < (front ++ between).length ∧
      (front ++ between).length ≤ rope.text.length then
        ropeRemove rope front.length (front ++ between).length else rope).text = front ++ back := by
    by_cases none : between = []
    · rw [if_neg (by simp [none]), whole, none, append_nil]
    · have some := length_pos_of_ne_nil none
      rw [if_pos (by rw [whole]; simp; omega), ropeRemove, rope_from_str_text, front_cut, back_cut]
  unfold changedRope
  rw [starts, ends]
  by_cases none : newText = []
  · rw [if_neg (by simp [none]), removed, none, append_nil]
  · rw [if_pos ⟨none, by rw [removed]; simp⟩, ropeInsert, rope_from_str_text, removed,
      take_left' rfl, drop_left' rfl]

theorem between_inj (left inner outer right : List Char) :
    left ++ inner ++ right = left ++ outer ++ right ↔ inner = outer := by
  rw [append_left_inj, append_right_inj]

/-- Two cuts of a text around the same new text give the same when the gaps make up for it. -/
theorem same_splice {left left' right right' : List Char} (newText : List Char) {start stop : Gap}
    (fronts : left ++ start.short = left' ++ start.ahead) (oneFront : start.ahead = [] ∨ start.short = [])
    (backs : stop.short ++ right' = stop.ahead ++ right) (oneBack : stop.ahead = [] ∨ stop.short = []) :
    left ++ newText ++ right = left' ++ newText ++ right' ↔
      start.ahead ++ newText ++ stop.short = start.short ++ newText ++ stop.ahead := by
  rcases oneFront with frontNone | frontNone <;> rcases oneBack with backNone | backNone <;>
    rw [frontNone] at fronts ⊢ <;> rw [backNone] at backs ⊢ <;>
    simp only [append_nil, nil_append] at fronts backs ⊢ <;> subst fronts <;> subst backs
  · simpa only [append_assoc] using between_inj left (newText ++ stop.short) (start.short ++ newText) right'
  · simpa only [append_assoc, append_nil] using
      between_inj left newText (start.short ++ newText ++ stop.ahead) right
  · simpa only [append_assoc] using between_inj left' (start.ahead ++ newText ++ stop.short) newText right'
  · simpa only [append_assoc] using between_inj left' (start.ahead ++ newText) (newText ++ stop.ahead) right

variable {Ast ParseError : Type}

/-- The change replaces what lies between the converter's offsets of its two positions in the old
text, and what is kept is that of the new one. -/
def Replaces (ropeLines : List Char → List (List Char)) (doc : DocumentState Ast ParseError)
    (startLine startChar endLine endChar : UInt32) (newText : List Char) (version : Int32) : Prop :=
  let after := doc.applyChange ropeLines startLine.toNat startChar.toNat endLine.toNat endChar.toNat
    newText version
  after.Synced ∧ ∃ start stop front frontRest backFront back,
    utf16LineColToOffset doc.text startLine startChar = some start ∧
      utf16LineColToOffset doc.text endLine endChar = some stop ∧
      splitAtByte doc.text start = some (front, frontRest) ∧
      splitAtByte doc.text stop = some (backFront, back) ∧
      after.text = front ++ newText ++ back

/-- The change replaces the converter's range exactly when the gaps of its positions make up for one
another around the new text. Without gaps they do. -/
theorem apply_change_replaces_iff (ropeLines : List Char → List (List Char))
    (documented : Documented ropeLines) (doc : DocumentState Ast ParseError) (synced : doc.Synced)
    (onlyLf : OnlyLf doc.text) (startLine startChar endLine endChar : UInt32)
    (order : startLine < endLine ∨ startLine = endLine ∧ startChar ≤ endChar)
    (newText : List Char) (version : Int32) :
    Replaces ropeLines doc startLine startChar endLine endChar newText version ↔
      (gap doc.text startLine startChar).ahead ++ newText ++ (gap doc.text endLine endChar).short =
        (gap doc.text startLine startChar).short ++ newText ++ (gap doc.text endLine endChar).ahead := by
  have sameText := synced.rope
  rw [← sameText] at onlyLf ⊢
  have divided := documented doc.rope.text onlyLf
  obtain ⟨reached, reachedRest, front, frontRest, starts⟩ :=
    resolved_exists documented onlyLf startLine startChar
  obtain ⟨reachedFront, reachedBack, backFront, back, stops⟩ :=
    resolved_exists documented onlyLf endLine endChar
  have later : startLine.toNat < endLine.toNat ∨
      startLine.toNat = endLine.toNat ∧ startChar.toNat ≤ endChar.toNat := by
    rcases order with before | ⟨same, columns⟩
    · exact .inl (UInt32.lt_iff_toNat_lt.mp before)
    · exact .inr ⟨congrArg UInt32.toNat same, UInt32.le_iff_toNat_le.mp columns⟩
  have whole : (ropeLines doc.rope.text).flatten.length = doc.rope.text.length := by
    rw [divided, lf_lines_flatten]
  have indices := index_mono whole later
  rw [starts.index, stops.index] at indices
  obtain ⟨between, grown⟩ : ∃ between, reachedFront = reached ++ between := by
    have same := starts.whole.symm.trans stops.whole
    have front : reached <+: reachedFront ++ reachedBack := ⟨reachedRest, same⟩
    obtain ⟨between, grown⟩ := prefix_of_prefix_length_le front ⟨reachedBack, rfl⟩ indices
    exact ⟨between, grown.symm⟩
  have changed : (doc.applyChange ropeLines startLine.toNat startChar.toNat endLine.toNat
      endChar.toNat newText version).text = reached ++ newText ++ reachedBack := by
    apply changed_rope_parts newText (grown ▸ stops.whole) starts.index
    rw [stops.index, grown]
  have splice := same_splice newText starts.apart starts.oneSide (rests_apart stops) stops.oneSide
  rw [← splice]
  have startCut := (split_at_byte_iff _ _ _ _).mpr ⟨starts.parts, rfl⟩
  have stopCut := (split_at_byte_iff _ _ _ _).mpr ⟨stops.parts, rfl⟩
  constructor
  · rintro ⟨-, start, stop, first, firstRest, lastFront, last, one, two, three, four, five⟩
    rw [← sameText] at one two three four
    obtain rfl := Option.some.inj (starts.offset.symm.trans one)
    obtain rfl := Option.some.inj (stops.offset.symm.trans two)
    obtain ⟨rfl, -⟩ := Prod.mk.inj (Option.some.inj (startCut.symm.trans three))
    obtain ⟨-, rfl⟩ := Prod.mk.inj (Option.some.inj (stopCut.symm.trans four))
    exact changed.symm.trans five
  · intro same
    refine ⟨apply_change_synced _ _ _ _ _ _ _ _, size front, size backFront, front, frontRest,
      backFront, back, ?_⟩
    rw [← sameText]
    exact ⟨starts.offset, stops.offset, startCut, stopCut, changed.trans same⟩

/-- A column behind the end of its line: the new text comes to stand on the next line. -/
theorem insert_behind_newline :
    ¬ Replaces lfLines (DocumentState.new ['a', '\n', 'b'] 1 : DocumentState Unit Unit)
      0 5 0 5 ['x'] 2 := by
  rintro ⟨-, start, stop, front, frontRest, backFront, back, starts, stops, startCut, stopCut, same⟩
  have place : utf16LineColToOffset ['a', '\n', 'b'] 0 5 = some 1 := by decide
  obtain rfl := Option.some.inj (place.symm.trans starts)
  obtain rfl := Option.some.inj (place.symm.trans stops)
  have cut : splitAtByte ['a', '\n', 'b'] 1 = some (['a'], ['\n', 'b']) := by decide
  obtain ⟨rfl, -⟩ := Prod.mk.inj (Option.some.inj (cut.symm.trans startCut))
  obtain ⟨-, rfl⟩ := Prod.mk.inj (Option.some.inj (cut.symm.trans stopCut))
  exact absurd same (by decide)

theorem insert_within_line :
    Replaces lfLines (DocumentState.new ['a', '\n', 'b'] 1 : DocumentState Unit Unit)
      0 1 1 0 ['x'] 2 :=
  (apply_change_replaces_iff lfLines (fun _ _ => rfl) _ (new_synced _ _) (by simp [OnlyLf,
    DocumentState.new]) 0 1 1 0 (.inl (by decide)) ['x'] 2).mpr (by decide)

end Changes

end PerlLsp.DocumentChange
