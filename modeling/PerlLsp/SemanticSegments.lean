import Mathlib.Data.List.Nodup
import PerlLsp.PositionRoundTrip
import PerlLsp.SemanticFinalize

/-! `push_line_contained_segments` and `push_line_contained_token` of
perl-lsp-rs-core/src/providers/semantic_tokens/semantic_tokens.rs: a span of a text becomes
one token for each line it has content on. The position map is a parameter; all that is
asked of it is that it is exact on the places of each line's content. -/
namespace PerlLsp.SemanticSegments
open Utf8 TextLines Text PositionConvert PositionRoundTrip SemanticFinalize List

def checkedSub (left right : Nat) : Option Nat :=
  if right ≤ left then some (left - right) else none

def pushLineContainedToken (start stop : Nat) (toPos16 : Nat → Nat × Nat) (kind modifiers : Nat)
    (out : List RawSemanticToken) : List RawSemanticToken :=
  if stop ≤ start then out
  else
    let (line, startCharacter) := toPos16 start
    let (endLine, endCharacter) := toPos16 stop
    if line ≠ endLine then out
    else
      let length := endCharacter - startCharacter
      if 0 < length then out ++ [⟨line, startCharacter, length, kind, modifiers⟩] else out

/-- The two matches on `checked_sub(1)`: a carriage return of the span before `stop` is dropped when
paired with a line feed. -/
def contentEnd (text : List Char) (segmentStart stop : Nat) (paired : Bool) : Nat :=
  match checkedSub stop 1 with
  | some previous =>
    if segmentStart ≤ previous ∧ (encode text)[previous]? = some 0x0D ∧ paired = true then previous
    else stop
  | none => stop

/-- `span.match_indices('\n')` -/
def lfOffsets : List Char → Nat → List Nat
  | [], _ => []
  | scalar :: rest, offset =>
    if scalar = '\n' then offset :: lfOffsets rest (offset + scalar.utf8Size)
    else lfOffsets rest (offset + scalar.utf8Size)

/-- The loop over the span's line feeds, and what follows. The tokens pushed so far stay when the
work is not admitted. -/
def pushSegments (text : List Char) (start stop : Nat) (toPos16 : Nat → Nat × Nat)
    (kind modifiers : Nat) (control : SemanticTokensTraversalControl) :
    List Nat → Nat → Nat → List RawSemanticToken →
      Except TraversalStop Unit × Nat × List RawSemanticToken
  | [], segmentStart, workDone, out =>
    match admitWork.run control workDone with
    | (.error refused, workDone) => (.error refused, workDone, out)
    | (.ok (), workDone) =>
      let contentEnd := contentEnd text segmentStart stop ((encode text)[stop]? == some 0x0A)
      (.ok (), workDone,
        pushLineContainedToken segmentStart contentEnd toPos16 kind modifiers out)
  | offset :: rest, segmentStart, workDone, out =>
    match admitWork.run control workDone with
    | (.error refused, workDone) => (.error refused, workDone, out)
    | (.ok (), workDone) =>
      let lineEnd := start + offset
      let contentEnd := contentEnd text segmentStart lineEnd true
      pushSegments text start stop toPos16 kind modifiers control rest (lineEnd + 1) workDone
        (pushLineContainedToken segmentStart contentEnd toPos16 kind modifiers out)

def pushLineContainedSegments (text : List Char) (start stop : Nat) (toPos16 : Nat → Nat × Nat)
    (kind modifiers : Nat) (control : SemanticTokensTraversalControl) (workDone : Nat)
    (out : List RawSemanticToken) : Except TraversalStop Unit × Nat × List RawSemanticToken :=
  match slice text start stop with
  | none => (.error .invalidGeometry, workDone, out)
  | some span =>
    pushSegments text start stop toPos16 kind modifiers control (lfOffsets span 0) start workDone out

/-- `SemanticTokensTraversalControl::unlimited()` -/
def unlimited : SemanticTokensTraversalControl := ⟨none, none⟩

/-- The map is exact on the places of each line's content; a CR directly before an LF is no content.
-/
def Mapped (text : List Char) (toPos16 : Nat → Nat × Nat) : Prop :=
  ∀ line units place, Address lfCut lenUtf16 text line units place → toPos16 place = (line, units)

/-- A scalar of the span that is no line feed and no carriage return directly before one. -/
def Spanned (text : List Char) (start stop place : Nat) (scalar : Char) : Prop :=
  ∃ before rest, text = before ++ scalar :: rest ∧ size before = place ∧ start ≤ place ∧
    place < stop ∧ scalar ≠ '\n' ∧ ¬ (scalar = '\r' ∧ rest.head? = some '\n')

structure Segments (text : List Char) (toPos16 : Nat → Nat × Nat) (start stop : Nat)
    (tokens : List RawSemanticToken) : Prop where
  ordered : tokens.Pairwise fun earlier later => earlier.line < later.line
  positive : ∀ token ∈ tokens, 0 < token.length
  covers : ∀ place scalar, Spanned text start stop place scalar → ∃ token ∈ tokens,
    (toPos16 place).1 = token.line ∧ token.startChar ≤ (toPos16 place).2 ∧
      (toPos16 place).2 + lenUtf16 scalar ≤ token.startChar + token.length
  exact : ∀ token ∈ tokens, ∀ unit, token.startChar ≤ unit →
    unit < token.startChar + token.length →
      ∃ place scalar, Spanned text start stop place scalar ∧ (toPos16 place).1 = token.line ∧
        (toPos16 place).2 ≤ unit ∧ unit < (toPos16 place).2 + lenUtf16 scalar

section Parts

theorem front_extends {left leftRest right rightRest : List Char}
    (same : left ++ leftRest = right ++ rightRest) (wider : size right ≤ size left) :
    ∃ middle, left = right ++ middle ∧ rightRest = middle ++ leftRest := by
  rcases append_eq_append_iff.mp same with ⟨middle, grown, tail⟩ | ⟨middle, shrunk, tail⟩
  · have none : middle = [] := by
      apply size_zero
      rw [grown, size_append] at wider
      omega
    subst none
    exact ⟨[], by simpa using grown.symm, by simpa using tail.symm⟩
  · exact ⟨middle, shrunk, tail⟩

/-- The scalar that a unit of a text belongs to. -/
theorem unit_inside {measure : Char → Nat} {text : List Char} {unit : Nat}
    (inside : unit < weight measure text) :
    ∃ front scalar back, text = front ++ scalar :: back ∧ weight measure front ≤ unit ∧
      unit < weight measure front + measure scalar := by
  induction text generalizing unit with
  | nil => simp at inside
  | cons scalar rest ih =>
    by_cases here : unit < measure scalar
    · exact ⟨[], scalar, rest, rfl, Nat.zero_le _, by simpa using here⟩
    rw [weight_cons] at inside
    obtain ⟨front, other, back, rfl, low, high⟩ := ih (by omega : unit - measure scalar < _)
    refine ⟨scalar :: front, other, back, rfl, ?_, ?_⟩
    · rw [weight_cons]
      omega
    · rw [weight_cons]
      omega

theorem first_lf {left right more rest : List Char}
    (same : left ++ '\n' :: more = right ++ '\n' :: rest) (leftFree : '\n' ∉ left)
    (rightFree : '\n' ∉ right) : left = right ∧ more = rest := by
  rcases append_eq_append_iff.mp same with ⟨middle, grown, tail⟩ | ⟨middle, shrunk, tail⟩
  · cases middle with
    | nil => exact ⟨by simpa using grown.symm, by simpa using tail⟩
    | cons scalar others =>
      obtain ⟨rfl, -⟩ := List.cons.inj tail
      exact absurd (by simp [grown]) rightFree
  · cases middle with
    | nil => exact ⟨by simpa using shrunk, by simpa using tail.symm⟩
    | cons scalar others =>
      obtain ⟨rfl, -⟩ := List.cons.inj tail
      exact absurd (by simp [shrunk]) leftFree

def pieceOf (paired : Bool) (segment : List Char) : List Char :=
  if paired = true ∧ segment.getLast? = some '\r' then segment.dropLast else segment

theorem piece_append (paired : Bool) (lead segment : List Char) (some : segment ≠ []) :
    pieceOf paired (lead ++ segment) = lead ++ pieceOf paired segment := by
  unfold pieceOf
  rw [getLast?_append_of_ne_nil lead some]
  split
  · rw [dropLast_append_of_ne_nil some]
  · rfl

theorem piece_bounds (paired : Bool) (segment : List Char) :
    size (pieceOf paired segment) ≤ size segment ∧ (segment = [] → pieceOf paired segment = []) := by
  unfold pieceOf
  split
  next last =>
    have shape := dropLast_append_getLast? '\r' last.2
    constructor
    · rw [← shape, size_append, dropLast_concat]
      omega
    · rintro rfl
      rfl
  next => exact ⟨Nat.le_refl _, id⟩

theorem row_lf {part : List Char} (rest : List Char) (free : '\n' ∉ part) :
    (lfCut (part ++ '\n' :: rest)).content = pieceOf true part ∧
      (lfCut (part ++ '\n' :: rest)).separator ≠ [] ∧
      (lfCut (part ++ '\n' :: rest)).rest = rest ∧
      (lfCut (part ++ '\n' :: rest)).content ++ (lfCut (part ++ '\n' :: rest)).separator =
        part ++ ['\n'] := by
  have whole := (lfCut (part ++ '\n' :: rest)).whole
  have noLf := lf_content (part ++ '\n' :: rest)
  have behind := (lfCut (part ++ '\n' :: rest)).last
  rcases lf_separator (part ++ '\n' :: rest) with bare | ⟨lf, kept⟩ | crlf
  · rw [bare, behind bare, append_nil, append_nil] at whole
    rw [← whole] at noLf
    exact absurd (by simp) noLf
  · rw [lf, append_assoc, singleton_append] at whole
    obtain ⟨same, sameRest⟩ := first_lf whole free noLf
    rw [← same] at kept ⊢
    refine ⟨?_, by simp [lf], sameRest.symm, by rw [lf]⟩
    rw [pieceOf, if_neg (by simpa using kept)]
  · have shifted : part ++ '\n' :: rest = ((lfCut (part ++ '\n' :: rest)).content ++ ['\r']) ++ '\n' ::
          (lfCut (part ++ '\n' :: rest)).rest := by
      rw [crlf] at whole
      simpa using whole
    obtain ⟨same, sameRest⟩ := first_lf shifted free (by simp [noLf])
    refine ⟨?_, by simp [crlf], sameRest.symm, ?_⟩
    · generalize (lfCut (part ++ '\n' :: rest)).content = content at same
      rw [same, pieceOf, if_pos (by simp), dropLast_concat]
    · rw [crlf]
      generalize (lfCut (part ++ '\n' :: rest)).content = content at same
      rw [same]
      simp

theorem row_open {part rest : List Char} (free : '\n' ∉ part) (next : rest.head? ≠ some '\n') :
    ∃ back, (lfCut (part ++ rest)).content = part ++ back := by
  have whole := (lfCut (part ++ rest)).whole
  have behind := (lfCut (part ++ rest)).last
  rw [append_assoc] at whole
  rcases append_eq_append_iff.mp whole with ⟨back, grown, -⟩ | ⟨middle, shrunk, tail⟩
  · exact ⟨back, grown⟩
  cases middle with
  | nil => exact ⟨[], by simpa using shrunk.symm⟩
  | cons scalar others =>
    exfalso
    have noLf : '\n' ∉ scalar :: others := fun inside =>
      free (by rw [shrunk]; exact mem_append_right _ inside)
    rcases lf_separator (part ++ rest) with bare | ⟨lf, -⟩ | crlf
    · rw [bare, behind bare] at tail
      cases tail
    · rw [lf] at tail
      obtain ⟨rfl, -⟩ := List.cons.inj tail
      exact noLf (by simp)
    · rw [crlf] at tail
      obtain ⟨rfl, behindCr⟩ := List.cons.inj tail
      cases others with
      | nil =>
        apply next
        change _ = rest at behindCr
        rw [← behindCr]
        rfl
      | cons other more =>
        obtain ⟨rfl, -⟩ := List.cons.inj behindCr
        exact noLf (by simp)

end Parts

section Rows
variable {text before tail : List Char} {line : Nat}

/-- A scalar of a row that is no part of a terminator lies in the row's content. -/
theorem spanned_content (row : StartsAt lfCut text line before tail) {start stop place : Nat}
    {scalar : Char} (spanned : Spanned text start stop place scalar) (low : size before ≤ place)
    (high : place < size before + size (lfCut tail).content + size (lfCut tail).separator) :
    ∃ front back, (lfCut tail).content = front ++ scalar :: back ∧ size before + size front = place := by
  obtain ⟨left, right, parts, width, -, -, notLf, notCr⟩ := spanned
  have whole := start_whole row
  obtain ⟨middle, rfl, tailParts⟩ := front_extends (parts.symm.trans whole) (by omega)
  have rowParts := (lfCut tail).whole
  rw [size_append] at width
  by_cases inside : size (lfCut tail).content ≤ size middle
  · exfalso
    have same : middle ++ scalar :: right =
        (lfCut tail).content ++ ((lfCut tail).separator ++ (lfCut tail).rest) := by
      rw [← tailParts, ← append_assoc]
      exact rowParts
    obtain ⟨gap, rfl, separated⟩ := front_extends same inside
    rw [size_append] at width
    rcases lf_separator tail with bare | ⟨lf, -⟩ | crlf
    · rw [bare, size_nil] at high
      omega
    · rw [lf] at high separated
      have one : size ['\n'] = 1 := rfl
      have none : gap = [] := size_zero _ (by omega)
      subst none
      obtain ⟨same, -⟩ := List.cons.inj separated
      exact notLf same.symm
    · rw [crlf] at high separated
      have two : size ['\r', '\n'] = 2 := rfl
      cases gap with
      | nil =>
        obtain ⟨same, rest⟩ := List.cons.inj separated
        apply notCr
        change _ = right at rest
        rw [← same, ← rest]
        exact ⟨rfl, rfl⟩
      | cons first others =>
        obtain ⟨rfl, rest⟩ := List.cons.inj separated
        rw [size_cons] at width
        have positive := Char.utf8Size_pos '\r'
        have none : others = [] := size_zero _ (by omega)
        subst none
        obtain ⟨same, -⟩ := List.cons.inj rest
        exact notLf same.symm
  · have same : (lfCut tail).content ++ ((lfCut tail).separator ++ (lfCut tail).rest) =
        middle ++ scalar :: right := by
      rw [← tailParts, ← append_assoc]
      exact rowParts.symm
    obtain ⟨more, content, behind⟩ := front_extends same (by omega)
    cases more with
    | nil =>
      rw [append_nil] at content
      rw [content] at inside
      omega
    | cons other back =>
      obtain ⟨rfl, -⟩ := List.cons.inj behind
      exact ⟨middle, back, content, width⟩

/-- A scalar of a row's content is no part of a terminator. -/
theorem content_spanned (row : StartsAt lfCut text line before tail) {start stop : Nat}
    {front back : List Char} {scalar : Char} (content : (lfCut tail).content = front ++ scalar :: back)
    (low : start ≤ size before + size front) (high : size before + size front < stop) :
    Spanned text start stop (size before + size front) scalar := by
  have whole := line_whole (start_line row)
  rw [content] at whole
  refine ⟨before ++ front, back ++ ((lfCut tail).separator ++ (lfCut tail).rest), ?_,
    size_append _ _, low, high, ?_, ?_⟩
  · rw [whole]
    simp
  · rintro rfl
    exact lf_content tail (by rw [content]; simp)
  · rintro ⟨rfl, next⟩
    cases back with
    | cons other more =>
      have lf : other = '\n' := by simpa using next
      exact lf_content tail (by rw [content, lf]; simp)
    | nil =>
      have last : (lfCut tail).content.getLast? = some '\r' := by rw [content]; simp
      rcases lf_separator tail with bare | ⟨-, kept⟩ | crlf
      · rw [bare, (lfCut tail).last bare] at next
        cases next
      · exact kept last
      · rw [crlf] at next
        exact absurd next (by simp)

end Rows

def pieceTokens (line : Nat) (lead piece : List Char) (kind modifiers : Nat) : List RawSemanticToken :=
  if piece = [] then [] else [⟨line, utf16Len lead, utf16Len piece, kind, modifiers⟩]

section Pieces
variable {text before tail lead piece back : List Char} {line kind modifiers : Nat}
  {toPos16 : Nat → Nat × Nat} (mapped : Mapped text toPos16)
  (row : StartsAt lfCut text line before tail) (content : (lfCut tail).content = lead ++ piece ++ back)

include mapped row content

theorem push_piece (out : List RawSemanticToken) :
    pushLineContainedToken (size before + size lead) (size before + size lead + size piece) toPos16
      kind modifiers out = out ++ pieceTokens line lead piece kind modifiers := by
  unfold pushLineContainedToken pieceTokens
  by_cases none : piece = []
  · subst none
    simp
  have some : size piece ≠ 0 := fun zero => none (size_zero piece zero)
  have units : utf16Len piece ≠ 0 := fun zero => none (weight_zero _ len_utf16_positive piece zero)
  have parts : (lfCut tail).content = lead ++ (piece ++ back) := by rw [content, append_assoc]
  have start : toPos16 (size before + size lead) = (line, utf16Len lead) :=
    mapped line _ _ (addressable_front row parts)
  have right := mapped line _ _ (addressable_front row content)
  have stop : toPos16 (size before + size lead + size piece) = (line, utf16Len lead + utf16Len piece) := by
    rw [Nat.add_assoc, ← size_append, right]
    simp [utf16Len]
  rw [if_neg (by omega), if_neg none, start, stop]
  simp only [ne_eq, not_true_eq_false, if_false, Nat.add_sub_cancel_left]
  rw [if_pos (by omega)]

theorem piece_segments {stop : Nat} (low : size before + size lead + size piece ≤ stop)
    (high : stop ≤ size before + size (lfCut tail).content + size (lfCut tail).separator)
    (ending : back = [] ∨ stop = size before + size lead + size piece) :
    Segments text toPos16 (size before + size lead) stop (pieceTokens line lead piece kind modifiers) := by
  have token : ∀ token ∈ pieceTokens line lead piece kind modifiers,
      piece ≠ [] ∧ token = ⟨line, utf16Len lead, utf16Len piece, kind, modifiers⟩ := by
    intro token inside
    unfold pieceTokens at inside
    split at inside
    · cases inside
    next some => exact ⟨some, mem_singleton.mp inside⟩
  constructor
  · unfold pieceTokens
    split
    · exact List.Pairwise.nil
    · exact pairwise_singleton _ _
  · intro one inside
    obtain ⟨some, rfl⟩ := token one inside
    exact Nat.pos_of_ne_zero fun zero => some (weight_zero _ len_utf16_positive piece zero)
  · intro place scalar spanned
    have ⟨_, _, _, _, from_start, before_stop, _⟩ := spanned
    obtain ⟨front, rest, parts, width⟩ := spanned_content row spanned (by omega) (by omega)
    have whole : front ++ scalar :: rest = lead ++ (piece ++ back) := by
      rw [← parts, content, append_assoc]
    obtain ⟨middle, rfl, behind⟩ := front_extends whole (by omega)
    rw [size_append] at width
    have shorter : size middle < size piece := by
      rcases ending with rfl | same
      · have sizes := congrArg size behind
        rw [append_nil, size_append, size_cons] at sizes
        have positive := scalar.utf8Size_pos
        omega
      · omega
    obtain ⟨more, rfl, ahead⟩ := front_extends behind (by omega)
    cases more with
    | nil =>
      rw [append_nil] at shorter
      omega
    | cons other others =>
      obtain ⟨rfl, -⟩ := List.cons.inj ahead
      have there := mapped line _ _ (addressable_front row parts)
      rw [size_append, ← Nat.add_assoc] at there
      have place_at : toPos16 place = (line, utf16Len lead + utf16Len middle) := by
        rw [← width, ← Nat.add_assoc, there]
        simp [utf16Len]
      refine ⟨⟨line, utf16Len lead, utf16Len (middle ++ scalar :: others), kind, modifiers⟩,
        by simp [pieceTokens], ?_⟩
      rw [place_at]
      refine ⟨rfl, Nat.le_add_right _ _, ?_⟩
      simp only [utf16Len, weight_append, weight_cons]
      omega
  · intro one inside unit from_start before_end
    obtain ⟨some, rfl⟩ := token one inside
    have within : unit - utf16Len lead < weight lenUtf16 piece := by
      simp only [utf16Len] at from_start before_end ⊢
      omega
    obtain ⟨middle, scalar, rest, rfl, lower, upper⟩ := unit_inside within
    have parts : (lfCut tail).content = (lead ++ middle) ++ scalar :: (rest ++ back) := by
      rw [content]
      simp
    have there := mapped line _ _ (addressable_front row parts)
    have positive := scalar.utf8Size_pos
    rw [size_append, size_cons] at low
    have spanned : Spanned text (size before + size lead) stop
        (size before + size (lead ++ middle)) scalar := by
      apply content_spanned row parts
      · rw [size_append]
        omega
      · rw [size_append]
        omega
    refine ⟨_, scalar, spanned, ?_⟩
    rw [there]
    simp only [utf16Len, weight_append] at from_start lower upper ⊢
    refine ⟨trivial, ?_, ?_⟩ <;> omega

end Pieces

section Joining
variable {text : List Char} {toPos16 : Nat → Nat × Nat} {start middle stop : Nat}
  {first second : List RawSemanticToken}

theorem segments_nil (place : Nat) : Segments text toPos16 place place [] := by
  constructor
  · exact List.Pairwise.nil
  · intro token none
    cases none
  · rintro other scalar ⟨_, _, _, _, low, high, _⟩
    omega
  · intro token none
    cases none

theorem segments_append (front : Segments text toPos16 start middle first)
    (back : Segments text toPos16 middle stop second) (low : start ≤ middle) (high : middle ≤ stop)
    (apart : ∀ earlier ∈ first, ∀ later ∈ second, earlier.line < later.line) :
    Segments text toPos16 start stop (first ++ second) := by
  constructor
  · exact pairwise_append.mpr ⟨front.ordered, back.ordered, apart⟩
  · intro token inside
    exact (mem_append.mp inside).elim (front.positive token) (back.positive token)
  · rintro place scalar ⟨before, rest, parts, width, from_start, before_stop, kept⟩
    by_cases here : place < middle
    · obtain ⟨token, inside, covered⟩ :=
        front.covers place scalar ⟨before, rest, parts, width, from_start, here, kept⟩
      exact ⟨token, mem_append_left _ inside, covered⟩
    · obtain ⟨token, inside, covered⟩ :=
        back.covers place scalar ⟨before, rest, parts, width, by omega, before_stop, kept⟩
      exact ⟨token, mem_append_right _ inside, covered⟩
  · intro token inside unit low_unit high_unit
    rcases mem_append.mp inside with left | right
    · obtain ⟨place, scalar, ⟨before, rest, parts, width, from_start, before_stop, kept⟩, found⟩ :=
        front.exact token left unit low_unit high_unit
      exact ⟨place, scalar, ⟨before, rest, parts, width, from_start, by omega, kept⟩, found⟩
    · obtain ⟨place, scalar, ⟨before, rest, parts, width, from_start, before_stop, kept⟩, found⟩ :=
        back.exact token right unit low_unit high_unit
      exact ⟨place, scalar, ⟨before, rest, parts, width, by omega, before_stop, kept⟩, found⟩

end Joining

section Runs

theorem content_end_piece (front segment after : List Char) (paired : Bool) :
    contentEnd (front ++ segment ++ after) (size front) (size front + size segment) paired =
      size front + size (pieceOf paired segment) := by
  unfold contentEnd checkedSub
  by_cases none : segment = []
  · subst none
    have empty : pieceOf paired [] = [] := (piece_bounds paired []).2 rfl
    rw [empty, size_nil, Nat.add_zero]
    by_cases atStart : 1 ≤ size front
    · rw [if_pos atStart]
      simp only
      rw [if_neg (by omega)]
    · rw [if_neg atStart]
  · have some : size segment ≠ 0 := fun zero => none (size_zero segment zero)
    have last : (encode (front ++ segment ++ after))[size front + size segment - 1]? =
        Option.some 0x0D ↔ segment.getLast? = Option.some '\r' := by
      rw [byte_last _ _ _ (by omega)]
      exact encode_getLast segment '\r' (by decide)
    rw [if_pos (by omega)]
    simp only [last]
    unfold pieceOf
    by_cases dropped : paired = true ∧ segment.getLast? = Option.some '\r'
    · have shape := dropLast_append_getLast? '\r' dropped.2
      have width := congrArg size shape
      have one : size ['\r'] = 1 := rfl
      rw [size_append, one] at width
      rw [if_pos ⟨by omega, dropped.2, dropped.1⟩, if_pos dropped]
      omega
    · rw [if_neg fun all => dropped ⟨all.2.2, all.2.1⟩, if_neg dropped]

theorem lf_offsets_free {segment : List Char} (free : '\n' ∉ segment) (rest : List Char)
    (offset : Nat) : lfOffsets (segment ++ rest) offset = lfOffsets rest (offset + size segment) := by
  induction segment generalizing offset with
  | nil => rfl
  | cons scalar others ih =>
    have notLf : scalar ≠ '\n' := fun same => free (by simp [same])
    rw [cons_append, lfOffsets, if_neg notLf, ih (fun inside => free (by simp [inside])),
      size_cons, Nat.add_assoc]

theorem lf_byte (front rest : List Char) :
    ((encode (front ++ rest))[size front]? == some 0x0A) = true ↔ rest.head? = some '\n' := by
  rw [beq_iff_eq]
  have behind := byte_behind front [] rest 0
  rw [append_nil, size_nil, Nat.add_zero] at behind
  rw [behind, ← head?_eq_getElem?]
  exact encode_head rest '\n' (by decide)

theorem admitted {workDone : Nat} (fits : workDone + 1 ≤ usizeMax) :
    admitWork.run unlimited workDone = (.ok (), workDone + 1) := by
  simp [Traversal.run, admitWork, unlimited, fits]

variable {text : List Char} {toPos16 : Nat → Nat × Nat} (mapped : Mapped text toPos16)
  (kind modifiers : Nat)

/-- What a run over the rest of a span has to do. -/
def Pushes (text : List Char) (toPos16 : Nat → Nat × Nat) (kind modifiers start stop : Nat)
    (offsets : List Nat) (line segmentStart : Nat) : Prop :=
  ∃ tokens, Segments text toPos16 segmentStart stop tokens ∧
    (∀ token ∈ tokens, line ≤ token.line ∧ token.kind = kind ∧ token.modifiers = modifiers) ∧
    ∀ workDone out, workDone + offsets.length + 1 ≤ usizeMax →
      pushSegments text start stop toPos16 kind modifiers unlimited offsets segmentStart workDone out =
        (.ok (), workDone + offsets.length + 1, out ++ tokens)

theorem piece_tokens_fields {line : Nat} {piece : List Char} {token : RawSemanticToken}
    (inside : token ∈ pieceTokens line lead piece kind modifiers) :
    token.line = line ∧ token.kind = kind ∧ token.modifiers = modifiers := by
  unfold pieceTokens at inside
  split at inside
  · cases inside
  · rw [mem_singleton.mp inside]
    exact ⟨rfl, rfl, rfl⟩

include mapped

theorem push_last {before segment after : List Char} {line : Nat} (start : Nat)
    (row : StartsAt lfCut text line before (lead ++ segment ++ after)) (free : '\n' ∉ lead ++ segment) :
    Pushes text toPos16 kind modifiers start (size before + size lead + size segment) [] line
      (size before + size lead) := by
  have whole := start_whole row
  have shape : text = (before ++ lead) ++ segment ++ after := by
    rw [whole]
    simp
  have run (piece : List Char) (ends : contentEnd text (size before + size lead)
      (size before + size lead + size segment)
      ((encode text)[size before + size lead + size segment]? == some 0x0A) =
        size before + size lead + size piece) {back : List Char}
      (content : (lfCut (lead ++ segment ++ after)).content = lead ++ piece ++ back)
      (segments : Segments text toPos16 (size before + size lead)
        (size before + size lead + size segment) (pieceTokens line lead piece kind modifiers)) :
      Pushes text toPos16 kind modifiers start (size before + size lead + size segment) [] line
        (size before + size lead) := by
    refine ⟨_, segments, ?_, ?_⟩
    · intro token inside
      obtain ⟨sameLine, fields⟩ := piece_tokens_fields kind modifiers inside
      exact ⟨by omega, fields⟩
    · intro workDone out fits
      rw [pushSegments, admitted (by simpa using fits)]
      simp only [ends, push_piece mapped row content, length_nil]
  have ends := content_end_piece (before ++ lead) segment after
    ((encode text)[size before + size lead + size segment]? == some 0x0A)
  rw [← shape, size_append] at ends
  have paired := lf_byte (before ++ lead ++ segment) after
  rw [← shape, size_append, size_append] at paired
  by_cases none : segment = []
  · subst none
    refine ⟨[], segments_nil _, by simp, ?_⟩
    intro workDone out fits
    rw [pushSegments, admitted (by simpa using fits)]
    simp only [ends, (piece_bounds _ []).2 rfl]
    simp [pushLineContainedToken]
  by_cases next : after.head? = some '\n'
  · obtain ⟨rest, rfl⟩ : ∃ rest, after = '\n' :: rest := by
      cases after with
      | nil => cases next
      | cons scalar rest => exact ⟨rest, by rw [Option.some.inj next]⟩
    obtain ⟨content, -, -, terminated⟩ := row_lf rest free
    rw [piece_append true lead segment none] at content
    rw [paired.mpr next] at ends
    have widths := congrArg size terminated
    simp only [size_append] at widths
    have bounds := (piece_bounds true segment).1
    have closed : (lfCut (lead ++ segment ++ '\n' :: rest)).content =
        lead ++ pieceOf true segment ++ [] := by rw [content, append_nil]
    apply run (pieceOf true segment) (by rw [paired.mpr next]; exact ends) closed
    exact piece_segments mapped row closed (by omega) (by omega) (Or.inl rfl)
  · obtain ⟨back, content⟩ := row_open free next
    have unpaired : ((encode text)[size before + size lead + size segment]? == some 0x0A) = false := by
      rw [Bool.eq_false_iff]
      exact fun byte => next (paired.mp byte)
    rw [unpaired] at ends
    have widths := congrArg size content
    simp only [size_append] at widths
    apply run segment (by rw [unpaired]; exact ends) content
    exact piece_segments mapped row content (Nat.le_refl _) (by omega) (Or.inr rfl)

theorem push_line {before segment rest : List Char} {line : Nat}
    (row : StartsAt lfCut text line before (lead ++ segment ++ '\n' :: rest))
    (free : '\n' ∉ lead ++ segment) : ∃ tokens, Segments text toPos16 (size before + size lead)
        (size before + size lead + size segment + 1) tokens ∧
      (∀ token ∈ tokens, token.line = line ∧ token.kind = kind ∧ token.modifiers = modifiers) ∧
      ∀ out, pushLineContainedToken (size before + size lead)
        (contentEnd text (size before + size lead) (size before + size lead + size segment) true)
        toPos16 kind modifiers out = out ++ tokens := by
  have shape : text = (before ++ lead) ++ segment ++ '\n' :: rest := by
    rw [start_whole row]
    simp
  have ends := content_end_piece (before ++ lead) segment ('\n' :: rest) true
  rw [← shape, size_append] at ends
  obtain ⟨content, -, -, terminated⟩ := row_lf rest free
  have widths := congrArg size terminated
  have one : size ['\n'] = 1 := rfl
  simp only [size_append] at widths
  by_cases none : segment = []
  · subst none
    refine ⟨[], ?_, by simp, ?_⟩
    · constructor
      · exact List.Pairwise.nil
      · intro token none
        cases none
      · intro place scalar spanned
        have ⟨_, _, _, _, from_start, before_stop, _⟩ := spanned
        obtain ⟨front, back, parts, width⟩ := spanned_content row spanned (by omega) (by omega)
        have bounds := (piece_bounds true (lead ++ [])).1
        rw [← content, parts, append_nil, size_append, size_cons] at bounds
        have positive := scalar.utf8Size_pos
        omega
      · intro token none
        cases none
    · rw [ends, (piece_bounds _ []).2 rfl]
      simp [pushLineContainedToken]
  · rw [piece_append true lead segment none] at content
    have bounds := (piece_bounds true segment).1
    have closed : (lfCut (lead ++ segment ++ '\n' :: rest)).content =
        lead ++ pieceOf true segment ++ [] := by rw [content, append_nil]
    refine ⟨pieceTokens line lead (pieceOf true segment) kind modifiers, ?_, ?_, ?_⟩
    · exact piece_segments mapped row closed (by omega) (by omega) (Or.inl rfl)
    · intro token inside
      exact piece_tokens_fields kind modifiers inside
    · intro out
      rw [ends]
      exact push_piece mapped row closed out

theorem push_run {before span after : List Char} {line start offset : Nat}
    (row : StartsAt lfCut text line before (lead ++ span ++ after)) (free : '\n' ∉ lead)
    (reached : start + offset = size before + size lead) :
    Pushes text toPos16 kind modifiers start (size before + size lead + size span)
      (lfOffsets span offset) line (size before + size lead) := by
  induction length : span.length using Nat.strongRecOn generalizing before lead span line offset with
  | ind count ih =>
    by_cases broken : '\n' ∈ span
    · obtain ⟨segment, more, rfl, segmentFree⟩ := eq_append_cons_of_mem broken
      have partFree : '\n' ∉ lead ++ segment := by simp [free, segmentFree]
      have shape : lead ++ (segment ++ '\n' :: more) ++ after =
          (lead ++ segment) ++ '\n' :: (more ++ after) := by simp
      rw [shape] at row
      have one : size ['\n'] = 1 := rfl
      have lf : ('\n' : Char).utf8Size = 1 := rfl
      obtain ⟨first, front, fields, pushed⟩ := push_line mapped kind modifiers row partFree
      -- the next row starts behind the line feed
      obtain ⟨-, separated, restIs, terminated⟩ := row_lf (more ++ after) partFree
      have nextRow := start_step row separated
      rw [restIs, append_assoc, terminated] at nextRow
      have nextRow : StartsAt lfCut text (line + 1) (before ++ (lead ++ segment ++ ['\n']))
          ([] ++ more ++ after) := nextRow
      have nextStart : size (before ++ (lead ++ segment ++ ['\n'])) + size ([] : List Char) =
          size before + size lead + size segment + 1 := by
        simp only [size_append, one, size_nil]
        omega
      have total : size before + size lead + size (segment ++ '\n' :: more) =
          size before + size lead + size segment + 1 + size more := by
        simp only [size_append, size_cons, lf]
        omega
      have shorter : more.length < count := by
        rw [← length]
        simp
        omega
      have offsetReached : start + (offset + size segment + 1) =
          size (before ++ (lead ++ segment ++ ['\n'])) + size ([] : List Char) := by omega
      have next := ih more.length shorter nextRow not_mem_nil offsetReached rfl
      rw [nextStart, ← total] at next
      obtain ⟨others, back, later, run⟩ := next
      refine ⟨first ++ others, ?_, ?_, ?_⟩
      · apply segments_append front back (by omega) (by omega)
        intro token inside other otherInside
        have here := (fields token inside).1
        have there := (later other otherInside).1
        omega
      · intro token inside
        rcases mem_append.mp inside with new | old
        · obtain ⟨sameLine, same⟩ := fields token new
          exact ⟨by omega, same⟩
        · obtain ⟨laterLine, same⟩ := later token old
          exact ⟨by omega, same⟩
      · intro workDone out fits
        rw [lf_offsets_free segmentFree, lfOffsets, if_pos rfl, lf] at fits ⊢
        have lineEnd : start + (offset + size segment) = size before + size lead + size segment := by
          omega
        rw [length_cons] at fits ⊢
        rw [pushSegments, admitted (by omega)]
        simp only [lineEnd, pushed]
        rw [run _ _ (by omega), append_assoc]
        congr 2
        omega
    · have partFree : '\n' ∉ lead ++ span := by simp [free, broken]
      have last := push_last mapped kind modifiers start row partFree
      have offsets := lf_offsets_free broken [] offset
      rw [append_nil] at offsets
      rw [offsets]
      exact last

end Runs

section Whole
variable {text : List Char}

/-- Every boundary lies in a row, behind a part of it that has no line feed. -/
theorem boundary_row {before after : List Char} (whole : text = before ++ after) :
    ∃ line front lead, before = front ++ lead ∧ '\n' ∉ lead ∧
      StartsAt lfCut text line front (lead ++ after) := by
  obtain ⟨line, front, tail, row, low, high⟩ := @row_exists lfCut text (size before)
  obtain ⟨lead, same, tailParts⟩ := front_extends (whole.symm.trans (start_whole row)) low
  subst same
  rw [tailParts] at row high
  refine ⟨line, front, lead, rfl, ?_, row⟩
  intro broken
  obtain ⟨part, more, rfl, partFree⟩ := eq_append_cons_of_mem broken
  rw [append_assoc, cons_append] at high
  obtain ⟨-, separated, -, terminated⟩ := row_lf (more ++ after) partFree
  have inside := high separated
  have widths := congrArg size terminated
  have one : ('\n' : Char).utf8Size = 1 := rfl
  simp only [size_append, size_cons, size_nil, one] at inside widths
  omega

theorem lf_offsets_count (span : List Char) (offset : Nat) :
    (lfOffsets span offset).length = span.count '\n' := by
  induction span generalizing offset with
  | nil => rfl
  | cons scalar rest ih =>
    rw [lfOffsets]
    split
    next lf =>
      rw [length_cons, ih, lf, count_cons_self]
    next other => rw [ih, count_cons_of_ne other]

/-- There is one token for a line exactly if the span has content there. -/
theorem Segments.one_each {toPos16 : Nat → Nat × Nat} {start stop : Nat}
    {tokens : List RawSemanticToken} (segments : Segments text toPos16 start stop tokens) (line : Nat) :
    (∃! token, token ∈ tokens ∧ token.line = line) ↔
      ∃ place scalar, Spanned text start stop place scalar ∧ (toPos16 place).1 = line := by
  constructor
  · rintro ⟨token, ⟨inside, sameLine⟩, -⟩
    have positive := segments.positive token inside
    obtain ⟨place, scalar, spanned, there, -⟩ :=
      segments.exact token inside token.startChar (Nat.le_refl _) (by omega)
    exact ⟨place, scalar, spanned, there.trans sameLine⟩
  · rintro ⟨place, scalar, spanned, there⟩
    obtain ⟨token, inside, sameLine, -⟩ := segments.covers place scalar spanned
    refine ⟨token, ⟨inside, sameLine.symm.trans there⟩, ?_⟩
    rintro other ⟨otherInside, otherLine⟩
    have distinct : (tokens.map fun token => token.line).Nodup :=
      pairwise_map.mpr (segments.ordered.imp fun less => by omega)
    apply inj_on_of_nodup_map distinct otherInside inside
    rw [otherLine, ← sameLine, there]

/-- A span between two boundaries becomes one token for each line it has content on, in order, and
they cover its content and nothing else. -/
theorem line_segments_exact (toPos16 : Nat → Nat × Nat) (mapped : Mapped text toPos16)
    (kind modifiers start stop : Nat) (order : start ≤ stop)
    (startBoundary : isCharBoundary text start = true)
    (stopBoundary : isCharBoundary text stop = true) :
    ∃ tokens, Segments text toPos16 start stop tokens ∧
      (∀ line, (∃! token, token ∈ tokens ∧ token.line = line) ↔
        ∃ place scalar, Spanned text start stop place scalar ∧ (toPos16 place).1 = line) ∧
      (∀ token ∈ tokens, token.kind = kind ∧ token.modifiers = modifiers) ∧
      ∃ span, slice text start stop = some span ∧
        ∀ workDone out, workDone + span.count '\n' + 1 ≤ usizeMax →
          pushLineContainedSegments text start stop toPos16 kind modifiers unlimited workDone out =
            (.ok (), workDone + span.count '\n' + 1, out ++ tokens) := by
  obtain ⟨before, behind, whole, rfl⟩ := (boundary_iff text start).mp startBoundary
  obtain ⟨through, after, wholeToo, rfl⟩ := (boundary_iff text stop).mp stopBoundary
  obtain ⟨span, rfl, rest⟩ := front_extends (wholeToo.symm.trans whole) order
  subst rest
  obtain ⟨line, front, lead, rfl, free, row⟩ := boundary_row whole
  rw [← append_assoc] at row
  have reached : size (front ++ lead) + 0 = size front + size lead := by rw [size_append, Nat.add_zero]
  obtain ⟨tokens, segments, fields, run⟩ := push_run mapped kind modifiers row free reached
  have stops : size (front ++ lead ++ span) = size front + size lead + size span := by
    rw [size_append, size_append]
  rw [← stops, ← size_append] at segments
  refine ⟨tokens, segments, segments.one_each, fun token inside => (fields token inside).2, span, ?_, ?_⟩
  · rw [wholeToo, size_append (front ++ lead) span]
    exact slice_parts (front ++ lead) span after
  · intro workDone out fits
    have found : slice text (size (front ++ lead)) (size (front ++ lead ++ span)) = some span := by
      rw [wholeToo, size_append (front ++ lead) span]
      exact slice_parts (front ++ lead) span after
    rw [pushLineContainedSegments, found, ← lf_offsets_count span 0]
    have done := run workDone out (by rw [lf_offsets_count]; exact fits)
    rw [← stops, ← size_append] at done
    exact done

/-- The converter of the position-tracking crate is such a map where lines and columns fit. -/
theorem converter_mapped (fits : Fits text) : Mapped text fun offset =>
      ((offsetToUtf16LineCol text offset).map fun position =>
        (position.1.toNat, position.2.toNat)).getD (0, 0) := by
  rintro line units place ⟨before, front, back, after, here, rfl, rfl⟩
  obtain ⟨tail, starts, content, -⟩ := line_start here
  have located := located_front starts content
  obtain ⟨row, column, there, converted⟩ := from_offset_located fits (size before + size front)
  obtain ⟨sameLine, sameColumn⟩ := located_unique there located
  simp [converted, sameLine, sameColumn, utf16Len]

/-- A span that starts between CR and LF, with a bare CR on a later line. -/
theorem line_segments_sample :
    ∃ toPos16 tokens, Segments ['a', '\r', '\n', 'b', '\r', 'c', '\n', '\n', 'd'] toPos16 2 9 tokens ∧
      pushLineContainedSegments ['a', '\r', '\n', 'b', '\r', 'c', '\n', '\n', 'd'] 2 9 toPos16 1 0
        unlimited 0 [] = (.ok (), 4, tokens) := by
  have fits : Fits ['a', '\r', '\n', 'b', '\r', 'c', '\n', '\n', 'd'] := short_fits (by decide)
  obtain ⟨tokens, segments, -, -, span, found, run⟩ :=
    line_segments_exact _ (converter_mapped fits) 1 0 2 9 (by decide) (by decide) (by decide)
  have middle : slice ['a', '\r', '\n', 'b', '\r', 'c', '\n', '\n', 'd'] 2 9 =
      some ['\n', 'b', '\r', 'c', '\n', '\n', 'd'] := by decide
  obtain rfl := Option.some.inj (found.symm.trans middle)
  exact ⟨_, tokens, segments, run 0 [] (by decide)⟩

end Whole

end PerlLsp.SemanticSegments
