import PerlLsp.Utf8

/-! Two texts that agree outside a list of replaced ranges, given piece by piece from the
front, and the place of a position of the first text in the second. A position inside a
replaced range, or where text is inserted, has two places: the one before the new text and
the one behind it. -/
namespace PerlLsp.TextAlignment
open Utf8 List

structure Piece where
  oldStart : Nat
  oldEnd : Nat
  newStart : Nat
  newEnd : Nat
  deriving DecidableEq

inductive Bias where
  | left
  | right
  deriving DecidableEq

/-- From the two positions on, the texts agree up to the first piece and again behind it. -/
inductive Aligned (old new : List Char) : Nat → Nat → List Piece → Prop where
  | ended (oldFrom newFrom : Nat) (rest : List Char)
      (oldRest : slice old oldFrom (size old) = some rest)
      (newRest : slice new newFrom (size new) = some rest) : Aligned old new oldFrom newFrom []
  | piece (oldFrom newFrom : Nat) (piece : Piece) (pieces : List Piece)
      (gap removed inserted : List Char)
      (oldGap : slice old oldFrom piece.oldStart = some gap)
      (newGap : slice new newFrom piece.newStart = some gap)
      (oldPiece : slice old piece.oldStart piece.oldEnd = some removed)
      (newPiece : slice new piece.newStart piece.newEnd = some inserted)
      (behind : Aligned old new piece.oldEnd piece.newEnd pieces) :
      Aligned old new oldFrom newFrom (piece :: pieces)

def Piece.side (piece : Piece) : Bias → Nat
  | .left => piece.newStart
  | .right => piece.newEnd

def image (bias : Bias) : Nat → Nat → List Piece → Nat → Nat
  | oldFrom, newFrom, [], position => newFrom + (position - oldFrom)
  | oldFrom, newFrom, piece :: pieces, position =>
    if position < piece.oldStart then newFrom + (position - oldFrom)
    else if position < piece.oldEnd ∨
        bias = .left ∧ piece.oldStart = piece.oldEnd ∧ position = piece.oldEnd then
      piece.side bias
    else image bias piece.oldEnd piece.newEnd pieces position

section Slices

theorem char_boundary_slice (text : List Char) (offset : Nat) :
    isCharBoundary text offset = true ↔ slice text offset offset = some [] := by
  constructor
  · intro boundary
    obtain ⟨before, after, rfl, rfl⟩ := (boundary_iff _ _).mp boundary
    have empty := slice_parts before [] after
    rwa [append_nil, size_nil, Nat.add_zero] at empty
  · intro found
    obtain ⟨before, after, shape, starts, -⟩ := slice_some _ _ _ _ found
    rw [append_nil] at shape
    exact (boundary_iff _ _).mpr ⟨before, after, shape, starts⟩

theorem slice_boundaries {text piece : List Char} {start stop : Nat}
    (found : slice text start stop = some piece) :
    isCharBoundary text start = true ∧ isCharBoundary text stop = true ∧ stop ≤ size text := by
  obtain ⟨before, after, rfl, starts, stops⟩ := slice_some _ _ _ _ found
  refine ⟨?_, ?_, ?_⟩
  · refine (boundary_iff _ _).mpr ⟨before, piece ++ after, append_assoc _ _ _, starts⟩
  · exact (boundary_iff _ _).mpr ⟨before ++ piece, after, rfl, stops⟩
  · rw [size_append, stops]
    exact Nat.le_add_right _ _

theorem slice_append {text front back : List Char} {start middle stop : Nat}
    (left : slice text start middle = some front) (right : slice text middle stop = some back) :
    slice text start stop = some (front ++ back) := by
  obtain ⟨before, after, shape, starts, stops⟩ := slice_some _ _ _ _ left
  obtain ⟨behind, tail, other, begins, finishes⟩ := slice_some _ _ _ _ right
  have cut := (split_at_byte_iff text middle (before ++ front) after).mpr ⟨shape, stops⟩
  have again := (split_at_byte_iff text middle behind (back ++ tail)).mpr
    ⟨by rw [other, append_assoc], begins⟩
  obtain ⟨rfl, rfl⟩ := Prod.mk.inj (Option.some.inj (cut.symm.trans again))
  have parts := slice_parts before (front ++ back) tail
  rw [starts] at parts
  rw [size_append] at parts
  rw [size_append] at stops finishes
  rw [size_append, starts] at finishes
  rw [← finishes, shape, Nat.add_assoc]
  simpa only [append_assoc] using parts

/-- What lies inside a common part of two texts lies in both of them. -/
theorem slice_in_common {old new common piece : List Char} {oldFrom oldTo newFrom newTo start stop : Nat}
    (oldCommon : slice old oldFrom oldTo = some common) (newCommon : slice new newFrom newTo = some common)
    (found : slice old start stop = some piece) (low : oldFrom ≤ start) (high : stop ≤ oldTo) :
    slice new (newFrom + (start - oldFrom)) (newFrom + (stop - oldFrom)) = some piece := by
  obtain ⟨before, after, shape, starts, stops⟩ := slice_some _ _ _ _ oldCommon
  obtain ⟨front, back, other, begins, finishes⟩ := slice_some _ _ _ _ found
  obtain ⟨newBefore, newAfter, rfl, newStarts, -⟩ := slice_some _ _ _ _ newCommon
  rw [size_append] at stops finishes
  obtain ⟨lead, trail, rfl, rfl, tail⟩ := split_middle before common after front (piece ++ back)
    (by rw [← shape, other, append_assoc]) (by omega) (by omega)
  rw [size_append] at stops begins finishes
  obtain ⟨first, last, rfl, same, -⟩ := split_middle [] trail after piece back tail.symm
    (Nat.zero_le _) (by rw [size_nil]; omega)
  obtain rfl : piece = first := same
  have parts := slice_parts (newBefore ++ lead) piece (last ++ newAfter)
  rw [size_append, newStarts] at parts
  have starts_at : newFrom + (start - oldFrom) = newFrom + size lead := by omega
  have upto : newFrom + (stop - oldFrom) = newFrom + size lead + size piece := by omega
  rw [starts_at, upto]
  simpa only [append_assoc] using parts

end Slices

section Image
variable {old new : List Char}

theorem Aligned.gap {piece : Piece} (aligned : Aligned old new oldFrom newFrom (piece :: pieces)) :
    oldFrom ≤ piece.oldStart ∧ piece.oldStart ≤ piece.oldEnd ∧
      newFrom + (piece.oldStart - oldFrom) = piece.newStart ∧ piece.newStart ≤ piece.newEnd ∧
      Aligned old new piece.oldEnd piece.newEnd pieces := by
  cases aligned with
  | piece _ _ _ _ gap removed inserted oldGap newGap oldPiece newPiece behind =>
    obtain ⟨order, width⟩ := slice_ordered _ _ _ _ oldGap
    obtain ⟨newOrder, newWidth⟩ := slice_ordered _ _ _ _ newGap
    have removes := slice_ordered _ _ _ _ oldPiece
    have inserts := slice_ordered _ _ _ _ newPiece
    exact ⟨order, removes.1, by omega, inserts.1, behind⟩

section
variable {oldFrom newFrom : Nat} {pieces : List Piece}
    (aligned : Aligned old new oldFrom newFrom pieces)
include oldFrom newFrom pieces aligned

theorem Aligned.inside : oldFrom ≤ size old ∧ newFrom ≤ size new := by
  cases aligned with
  | ended _ _ rest oldRest newRest =>
    exact ⟨(slice_ordered _ _ _ _ oldRest).1, (slice_ordered _ _ _ _ newRest).1⟩
  | piece _ _ _ _ gap removed inserted oldGap newGap oldPiece newPiece behind =>
    have oldOrder := (slice_ordered _ _ _ _ oldGap).1
    have newOrder := (slice_ordered _ _ _ _ newGap).1
    have oldInside := (slice_boundaries oldGap).2.2
    have newInside := (slice_boundaries newGap).2.2
    omega

theorem Aligned.later : ∀ piece ∈ pieces, oldFrom ≤ piece.oldStart ∧ newFrom ≤ piece.newStart := by
  induction pieces generalizing oldFrom newFrom with
  | nil => exact fun _ among => absurd among not_mem_nil
  | cons first pieces ih =>
    obtain ⟨order, removes, place, inserts, behind⟩ := aligned.gap
    intro piece among
    rcases mem_cons.mp among with rfl | among
    · omega
    · have later := ih behind piece among
      omega

end

theorem Piece.side_between {piece : Piece} (order : piece.newStart ≤ piece.newEnd) (bias : Bias) :
    piece.newStart ≤ piece.side bias ∧ piece.side bias ≤ piece.newEnd := by
  cases bias with
  | left => exact ⟨Nat.le_refl _, order⟩
  | right => exact ⟨order, Nat.le_refl _⟩

section
variable (bias : Bias) {oldFrom newFrom : Nat} {pieces : List Piece}
    (aligned : Aligned old new oldFrom newFrom pieces)
include bias oldFrom newFrom pieces aligned

theorem image_least (position : Nat) : newFrom ≤ image bias oldFrom newFrom pieces position := by
  induction pieces generalizing oldFrom newFrom with
  | nil => exact Nat.le_add_right _ _
  | cons piece pieces ih =>
    obtain ⟨order, removes, place, inserts, behind⟩ := aligned.gap
    have further := ih behind
    have between := Piece.side_between inserts bias
    rw [image]
    split
    · exact Nat.le_add_right _ _
    · split
      · omega
      · omega

/-- Positions keep their order. -/
theorem image_mono {earlier later : Nat} (low : oldFrom ≤ earlier) (order : earlier ≤ later) :
    image bias oldFrom newFrom pieces earlier ≤ image bias oldFrom newFrom pieces later := by
  induction pieces generalizing oldFrom newFrom with
  | nil =>
    rw [image, image]
    omega
  | cons piece pieces ih =>
    obtain ⟨starts, removes, place, inserts, behind⟩ := aligned.gap
    have least := image_least bias behind later
    have between := Piece.side_between inserts bias
    rw [image, image]
    by_cases before : earlier < piece.oldStart
    · rw [if_pos before]
      split
      · omega
      · split
        · omega
        · omega
    rw [if_neg before, if_neg (by omega : ¬ later < piece.oldStart)]
    by_cases inner : earlier < piece.oldEnd ∨
        bias = .left ∧ piece.oldStart = piece.oldEnd ∧ earlier = piece.oldEnd
    · rw [if_pos inner]
      split
      · exact Nat.le_refl _
      · omega
    · have outer : ¬ (later < piece.oldEnd ∨
          bias = .left ∧ piece.oldStart = piece.oldEnd ∧ later = piece.oldEnd) := by
        rintro (less | ⟨left, empty, same⟩)
        · exact inner (.inl (by omega))
        · exact inner (.inr ⟨left, empty, by omega⟩)
      rw [if_neg inner, if_neg outer]
      exact ih behind (by omega)

end

theorem image_left_right (aligned : Aligned old new oldFrom newFrom pieces) (position : Nat) :
    image .left oldFrom newFrom pieces position ≤ image .right oldFrom newFrom pieces position := by
  induction pieces generalizing oldFrom newFrom with
  | nil => exact Nat.le_refl _
  | cons piece pieces ih =>
    obtain ⟨-, -, -, inserts, behind⟩ := aligned.gap
    have least := image_least .right behind position
    have further := ih behind
    rw [image, image]
    by_cases before : position < piece.oldStart
    · rw [if_pos before, if_pos before]
    rw [if_neg before, if_neg before]
    by_cases inner : position < piece.oldEnd
    · rw [if_pos (.inl inner), if_pos (.inl inner)]
      exact inserts
    rw [if_neg (by simp [inner] : ¬ (position < piece.oldEnd ∨ Bias.right = .left ∧
      piece.oldStart = piece.oldEnd ∧ position = piece.oldEnd))]
    split
    · exact Nat.le_trans inserts least
    · exact further

section
variable (bias : Bias) {oldFrom newFrom : Nat} {pieces : List Piece}
    (aligned : Aligned old new oldFrom newFrom pieces) {position : Nat} (low : oldFrom ≤ position)
include bias oldFrom newFrom pieces aligned position low

/-- A position of the first text has a place in the second. -/
theorem image_inside (high : position ≤ size old) :
    image bias oldFrom newFrom pieces position ≤ size new := by
  induction aligned with
  | ended oldFrom newFrom rest oldRest newRest =>
    obtain ⟨oldOrder, oldWidth⟩ := slice_ordered _ _ _ _ oldRest
    obtain ⟨newOrder, newWidth⟩ := slice_ordered _ _ _ _ newRest
    rw [image]
    omega
  | piece oldFrom newFrom piece pieces gap removed inserted oldGap newGap oldPiece newPiece behind ih =>
    obtain ⟨order, width⟩ := slice_ordered _ _ _ _ oldGap
    obtain ⟨newOrder, newWidth⟩ := slice_ordered _ _ _ _ newGap
    have inserts := (slice_ordered _ _ _ _ newPiece).1
    have fits := (slice_boundaries newPiece).2.2
    have between := Piece.side_between inserts bias
    rw [image]
    split
    · omega
    · split
      · omega
      · exact ih (by omega)

/-- A scalar's boundary goes to a scalar's boundary. -/
theorem image_boundary (boundary : isCharBoundary old position = true) :
    isCharBoundary new (image bias oldFrom newFrom pieces position) = true := by
  have here := (char_boundary_slice old position).mp boundary
  induction aligned with
  | ended oldFrom newFrom rest oldRest newRest =>
    exact (char_boundary_slice _ _).mpr
      (slice_in_common oldRest newRest here low (slice_boundaries here).2.2)
  | piece oldFrom newFrom piece pieces gap removed inserted oldGap newGap oldPiece newPiece behind ih =>
    obtain ⟨starts, stops, -⟩ := slice_boundaries newPiece
    rw [image]
    split
    · rename_i before
      exact (char_boundary_slice _ _).mpr (slice_in_common oldGap newGap here low (Nat.le_of_lt before))
    split
    · cases bias with
      | left => exact starts
      | right => exact stops
    · exact ih (by omega)

end

/-- A piece that changes nothing can be left out. -/
theorem Aligned.join {piece : Piece} (aligned : Aligned old new oldFrom newFrom (piece :: pieces))
    (idle : piece.oldStart = piece.oldEnd) (bare : piece.newStart = piece.newEnd) :
    Aligned old new oldFrom newFrom pieces := by
  cases aligned with
  | piece _ _ _ _ gap removed inserted oldGap newGap oldPiece newPiece behind =>
    rw [idle] at oldGap
    rw [bare] at newGap
    cases behind with
    | ended _ _ rest oldRest newRest =>
      exact .ended _ _ _ (slice_append oldGap oldRest) (slice_append newGap newRest)
    | piece _ _ next pieces between removes inserts oldBetween newBetween oldNext newNext behind =>
      exact .piece _ _ _ _ _ _ _ (slice_append oldGap oldBetween)
        (slice_append newGap newBetween) oldNext newNext behind

theorem image_from (bias : Bias) {oldTo newTo : Nat} (pieces : List Piece) {position : Nat}
    (place : newFrom + (oldTo - oldFrom) = newTo) (order : oldFrom ≤ oldTo) (behind : oldTo ≤ position) :
    image bias oldTo newTo pieces position = image bias oldFrom newFrom pieces position := by
  cases pieces with
  | nil =>
    rw [image, image]
    omega
  | cons piece pieces =>
    rw [image, image]
    split
    · omega
    · rfl

theorem image_before (bias : Bias) {position : Nat} (before : ∀ piece ∈ pieces, position < piece.oldStart) :
    image bias oldFrom newFrom pieces position = newFrom + (position - oldFrom) := by
  cases pieces with
  | nil => rfl
  | cons piece pieces =>
    exact if_pos (before piece mem_cons_self)

/-- No byte of the span is replaced and no text is inserted inside it. -/
def Untouched (pieces : List Piece) (start stop : Nat) : Prop :=
  ∀ piece ∈ pieces,
    (piece.oldStart < piece.oldEnd → piece.oldEnd ≤ start ∨ stop ≤ piece.oldStart) ∧
      (piece.oldStart = piece.oldEnd → piece.newStart < piece.newEnd →
        piece.oldStart ≤ start ∨ stop ≤ piece.oldStart)

/-- An untouched span has its text in the second text, between what is inserted at its start and at
its end. -/
theorem image_span {start stop : Nat} {content : List Char}
    (aligned : Aligned old new oldFrom newFrom pieces) (low : oldFrom ≤ start) (wide : start < stop)
    (found : slice old start stop = some content) (untouched : Untouched pieces start stop) :
    slice new (image .right oldFrom newFrom pieces start) (image .left oldFrom newFrom pieces stop) =
      some content := by
  induction pieces generalizing oldFrom newFrom with
  | nil =>
    cases aligned with
    | ended _ _ rest oldRest newRest =>
      exact slice_in_common oldRest newRest found low (slice_boundaries found).2.2
  | cons piece pieces ih =>
    obtain ⟨order, removes, place, inserts, behind⟩ := aligned.gap
    obtain ⟨replaced, inserted⟩ := untouched piece mem_cons_self
    have others : Untouched pieces start stop :=
      fun other among => untouched other (mem_cons_of_mem _ among)
    by_cases inGap : stop ≤ piece.oldStart
    · have first : image .right oldFrom newFrom (piece :: pieces) start = newFrom + (start - oldFrom) := by
        rw [image]
        exact if_pos (by omega)
      have last : image .left oldFrom newFrom (piece :: pieces) stop = newFrom + (stop - oldFrom) := by
        rw [image]
        split
        · rfl
        · have same : stop = piece.oldStart := by omega
          rw [if_pos (by simp only [true_and]; omega), same]
          exact place.symm
      rw [first, last]
      cases aligned with
      | piece _ _ _ _ gap removed inserted oldGap newGap oldPiece newPiece behind =>
        exact slice_in_common oldGap newGap found low inGap
    · have ends : ¬ stop < piece.oldStart := by omega
      by_cases past : piece.oldEnd ≤ start
      · -- the whole piece lies before the span
        have first : image .right oldFrom newFrom (piece :: pieces) start =
            image .right piece.oldEnd piece.newEnd pieces start := by
          rw [image, if_neg (by omega), if_neg (by simp; omega)]
        have last : image .left oldFrom newFrom (piece :: pieces) stop =
            image .left piece.oldEnd piece.newEnd pieces stop := by
          rw [image, if_neg ends, if_neg (by simp; omega)]
        rw [first, last]
        exact ih behind past others
      · -- an insertion of nothing inside the span
        have idle : piece.oldStart = piece.oldEnd := by
          by_contra different
          rcases replaced (by omega) with before | after <;> omega
        have bare : piece.newStart = piece.newEnd := by
          by_contra different
          rcases inserted idle (by omega) with before | after <;> omega
        have joined := ih (aligned.join idle bare) low others
        have later : ∀ other ∈ pieces, start < other.oldStart := by
          intro other among
          have after := (behind.later other among).1
          omega
        have first : image .right oldFrom newFrom (piece :: pieces) start =
            image .right oldFrom newFrom pieces start := by
          rw [image, if_pos (by omega), image_before .right later]
        have last : image .left oldFrom newFrom (piece :: pieces) stop =
            image .left oldFrom newFrom pieces stop := by
          rw [image, if_neg ends, if_neg (by simp; omega)]
          exact image_from .left pieces (by omega) (by omega) (by omega)
        rw [first, last]
        exact joined

theorem image_left_start (aligned : Aligned old new oldFrom newFrom pieces) :
    image .left oldFrom newFrom pieces oldFrom = newFrom := by
  cases pieces with
  | nil =>
    rw [image]
    omega
  | cons piece pieces =>
    obtain ⟨order, removes, place, -, -⟩ := aligned.gap
    rw [image]
    split
    · omega
    · rw [if_pos (by simp only [true_and]; omega)]
      change piece.newStart = _
      omega

section
variable {oldFrom newFrom : Nat} {pieces : List Piece}
    (aligned : Aligned old new oldFrom newFrom pieces) {piece : Piece} (among : piece ∈ pieces)
    {position : Nat}
include oldFrom newFrom pieces aligned piece among position

theorem image_left_reach (low : oldFrom ≤ position)
    (reach : position < piece.oldEnd ∨ piece.oldStart = piece.oldEnd ∧ position = piece.oldEnd) :
    image .left oldFrom newFrom pieces position ≤ piece.newStart := by
  induction pieces generalizing oldFrom newFrom with
  | nil => cases among
  | cons first pieces ih =>
    obtain ⟨order, removes, place, inserts, behind⟩ := aligned.gap
    rw [image]
    rcases mem_cons.mp among with rfl | among
    · split
      · omega
      · rw [if_pos (by simpa using reach)]
        exact Nat.le_refl _
    · have after := behind.later piece among
      split
      · omega
      split
      · change first.newStart ≤ _
        omega
      · exact ih behind among (by omega)

theorem image_right_reach (reach : piece.oldStart ≤ position) :
    piece.newEnd ≤ image .right oldFrom newFrom pieces position := by
  induction pieces generalizing oldFrom newFrom with
  | nil => cases among
  | cons first pieces ih =>
    obtain ⟨order, removes, place, inserts, behind⟩ := aligned.gap
    rcases mem_cons.mp among with rfl | among
    · rw [image, if_neg (by omega)]
      split
      · exact Nat.le_refl _
      · exact image_least .right behind position
    · have after := behind.later piece among
      have order : ¬ (position < first.oldEnd ∨ Bias.right = .left ∧
          first.oldStart = first.oldEnd ∧ position = first.oldEnd) := by
        simp
        omega
      rw [image, if_neg (by omega), if_neg order]
      exact ih behind among

theorem image_right_before (low : oldFrom ≤ position) (before : position < piece.oldStart) :
    image .right oldFrom newFrom pieces position ≤ piece.newStart := by
  induction pieces generalizing oldFrom newFrom with
  | nil => cases among
  | cons first pieces ih =>
    obtain ⟨order, removes, place, inserts, behind⟩ := aligned.gap
    rw [image]
    rcases mem_cons.mp among with rfl | among
    · rw [if_pos before]
      omega
    have after := behind.later piece among
    split
    · omega
    split
    · exact after.2
    · rename_i outer
      exact ih behind among (by simp at outer; omega)

theorem image_right_same (starts : piece.oldStart ≤ position) (stops : position < piece.oldEnd) :
    image .right oldFrom newFrom pieces position = piece.newEnd := by
  induction pieces generalizing oldFrom newFrom with
  | nil => cases among
  | cons first pieces ih =>
    obtain ⟨order, removes, place, inserts, behind⟩ := aligned.gap
    rcases mem_cons.mp among with rfl | among
    · rw [image, if_neg (by omega), if_pos (.inl stops)]
      rfl
    · have after := behind.later piece among
      rw [image, if_neg (by omega), if_neg (by simp; omega)]
      exact ih behind among

end

/-- The right side of an earlier position lies behind the left side of a later one only where new
text stands in between: in a replaced range that holds both, or inserted at one position. -/
theorem left_before_right (aligned : Aligned old new oldFrom newFrom pieces) {earlier later : Nat}
    (low : oldFrom ≤ earlier) (order : earlier ≤ later)
    (crossed : image .left oldFrom newFrom pieces later < image .right oldFrom newFrom pieces earlier) :
    ∃ piece ∈ pieces, piece.newStart < piece.newEnd ∧ piece.oldStart ≤ earlier ∧
      (later < piece.oldEnd ∨ piece.oldStart = piece.oldEnd ∧ later = piece.oldEnd) := by
  induction pieces generalizing oldFrom newFrom with
  | nil =>
    rw [image, image] at crossed
    omega
  | cons first pieces ih =>
    obtain ⟨starts, removes, place, inserts, behind⟩ := aligned.gap
    have least := image_least .left behind later
    rw [image, image] at crossed
    by_cases ahead : earlier < first.oldStart
    · rw [if_pos ahead] at crossed
      split at crossed
      · omega
      split at crossed
      · change first.newStart < _ at crossed
        omega
      · omega
    · rw [if_neg ahead, if_neg (by omega : ¬ later < first.oldStart)] at crossed
      by_cases reach : later < first.oldEnd ∨ Bias.left = .left ∧ first.oldStart = first.oldEnd ∧
          later = first.oldEnd
      · rw [if_pos reach] at crossed
        by_cases grows : first.newStart < first.newEnd
        · exact ⟨first, mem_cons_self, grows, by omega, by simpa using reach⟩
        by_cases inner : earlier < first.oldEnd
        · rw [if_pos (.inl inner)] at crossed
          exact absurd crossed grows
        rw [if_neg (by simp [inner])] at crossed
        have same : later = first.oldEnd := by omega
        have start := image_left_start behind
        obtain ⟨piece, among, holds⟩ := ih behind (by omega) (by
          rw [same, start]
          change first.newStart < _ at crossed
          omega)
        exact ⟨piece, mem_cons_of_mem _ among, holds⟩
      · rw [if_neg reach] at crossed
        by_cases inner : earlier < first.oldEnd
        · rw [if_pos (.inl inner)] at crossed
          change _ < first.newEnd at crossed
          omega
        · rw [if_neg (by simp [inner])] at crossed
          obtain ⟨piece, among, holds⟩ := ih behind (by omega) crossed
          exact ⟨piece, mem_cons_of_mem _ among, holds⟩

def Escapes (pieces : List Piece) (start place stop : Nat) : Prop :=
  ∃ piece ∈ pieces, piece.newStart < piece.newEnd ∧ start < piece.oldStart ∧
    piece.oldStart ≤ place ∧
    (stop < piece.oldEnd ∨ piece.oldStart = piece.oldEnd ∧ stop = piece.oldEnd)

instance (pieces : List Piece) (start place stop : Nat) : Decidable (Escapes pieces start place stop) :=
  inferInstanceAs (Decidable (∃ piece ∈ pieces, _))

/-- When a place inside a span goes behind the span's end and behind its start. -/
theorem behind_span_iff (aligned : Aligned old new oldFrom newFrom pieces) {start place stop : Nat}
    (low : oldFrom ≤ start) (starts : start ≤ place) (stops : place ≤ stop) :
    (image .left oldFrom newFrom pieces stop < image .right oldFrom newFrom pieces place ∧
        image .right oldFrom newFrom pieces start < image .right oldFrom newFrom pieces place) ↔
      Escapes pieces start place stop := by
  constructor
  · rintro ⟨crossed, moved⟩
    obtain ⟨piece, among, grows, reached, reach⟩ :=
      left_before_right aligned (by omega) stops crossed
    refine ⟨piece, among, grows, ?_, reached, reach⟩
    by_contra inside
    rcases reach with inner | ⟨empty, same⟩
    · have first := image_right_same aligned among (by omega : piece.oldStart ≤ start) (by omega)
      have second := image_right_same aligned among reached (by omega)
      omega
    · obtain rfl : start = place := by omega
      exact Nat.lt_irrefl _ moved
  · rintro ⟨piece, among, grows, before, reached, reach⟩
    have left := image_left_reach aligned among (by omega) reach
    have right := image_right_reach aligned among reached
    have first := image_right_before aligned among low before
    omega

end Image

end PerlLsp.TextAlignment
