import Mathlib.Data.List.Chain
import PerlLsp.Checkpoint
import PerlLsp.TextAlignment

/-! Reuse of a tree across whitespace edits:
perl-parser/src/incremental/whitespace_geometry.rs. An edit batch in progressive
coordinates is admitted when it explains the two sources exactly; the map it gives moves
every location of the old tree. The lexer's tokens and the index of source regions are
parameters, nothing is asked of them. -/
namespace PerlLsp.WhitespaceGeometry
open Text Utf8 Checkpoint TextAlignment List Option

def maxIncrementalEditBatch : Nat := 10

def isizeMax : Int := 2 ^ 63 - 1

def isizeMin : Int := -2 ^ 63

/-- `perl_parser_core::edit::Edit`, its byte coordinates. -/
structure Edit where
  startByte : Nat
  oldEndByte : Nat
  newEndByte : Nat

/-- The coordinates are known to fit an `isize` where this is asked. -/
def Edit.byteShift (edit : Edit) : Int := edit.newEndByte - edit.oldEndByte

structure NormalizedEdit where
  oldStart : Nat
  oldEnd : Nat
  newStart : Nat
  newEnd : Nat
  byteShift : Int
  deriving DecidableEq

inductive SourceRegionKind where
  | code
  | lineComment
  | pod
  | dataSection
  | stringLiteral
  | quoteLike
  | regexLike
  | heredoc
  | recoveryAmbiguous
  deriving DecidableEq

inductive SourceRangeClassification where
  | proven (kind : SourceRegionKind)
  | emptyBoundary (left right : Option SourceRegionKind)
  | ambiguous
  | invalidUtf8Boundary
  | outOfBounds

/-- `SourceRegionIndex` as it is asked here. -/
structure SourceRegionIndex where
  classifyRangeChecked : Nat → Nat → SourceRangeClassification

def SourceRegionIndex.rangeFullyWithin (regions : SourceRegionIndex) (start stop : Nat)
    (allowed : List SourceRegionKind) : Bool :=
  match regions.classifyRangeChecked start stop with
  | .proven kind => decide (kind ∈ allowed)
  | _ => false

/-- The code the map leans on: the region index, and the tokens `next_token` gives up to the end of
input. -/
structure Frontend (Kind : Type) where
  build : List Char → SourceRegionIndex
  tokens : List Char → List (LexToken Kind)
  isRecoveryToken : Kind → Bool
  -- `Whitespace` and `Newline`
  isBlank : Kind → Bool
  isEof : Kind → Bool

section Admission
variable {Kind : Type} [DecidableEq Kind]

def rangeIsCode (regions : SourceRegionIndex) (start stop : Nat) : Bool :=
  if start < stop then regions.rangeFullyWithin start stop [.code]
  else
    match regions.classifyRangeChecked start stop with
    | .proven kind => decide (kind = .code)
    | .emptyBoundary left right =>
      (left.all fun kind => kind = .code) && right.all fun kind => kind = .code
    | _ => false

def originalCoordinate (coordinate : Nat) (cumulativeShift : Int) : Option Nat :=
  if isizeMax < coordinate then none
  else
    let original := (coordinate : Int) - cumulativeShift
    if original < isizeMin ∨ isizeMax < original then none
    else if original < 0 then none
    else some original.toNat

def shiftedPosition (position : Nat) (shift : Int) : Nat :=
  if 0 ≤ shift then min (position + shift.toNat) usizeMax else position - shift.natAbs

def checkedAdd (left right : Int) : Option Int :=
  if left + right < isizeMin ∨ isizeMax < left + right then none else some (left + right)

def saturatingAddShift (left right : Int) : Int := max isizeMin (min (left + right) isizeMax)

inductive StructuralLexItem (Kind : Type) where
  | token (kind : Kind) (text : List Char) (start stop : Nat)
  | ended
  | rejected

/-- What `next_structural_token` gives, one call after another. -/
def structuralItems (frontend : Frontend Kind) : List (LexToken Kind) → List (StructuralLexItem Kind)
  | [] => [.rejected]
  | token :: rest =>
    if frontend.isRecoveryToken token.tokenType then [.rejected]
    else if frontend.isBlank token.tokenType then structuralItems frontend rest
    else if frontend.isEof token.tokenType then [.ended]
    else .token token.tokenType token.text token.start token.stop :: structuralItems frontend rest

def gapClass (source : List Char) (previousEnd currentStart : Nat) : Option (Bool × Bool) :=
  (slice source previousEnd currentStart).map fun gap => (gap.isEmpty, decide ('\n' ∈ gap))

def adjacencySensitivePair (previousText currentText : List Char) : Bool :=
  decide (currentText = ['+', '+']) || decide (currentText = ['-', '-']) ||
    decide ('$' ∈ previousText) || decide ('$' ∈ currentText)

def gapsMatch (oldSource newSource : List Char) (oldPrevious : Option (Nat × List Char))
    (newPreviousEnd : Option Nat) (oldText : List Char) (oldStart newStart : Nat) : Bool :=
  match oldPrevious, newPreviousEnd with
  | some (oldEnd, oldPreviousText), some newEnd =>
    match gapClass oldSource oldEnd oldStart, gapClass newSource newEnd newStart with
    | some (oldEmpty, oldNewline), some (newEmpty, newNewline) =>
      oldNewline == newNewline &&
        (!adjacencySensitivePair oldPreviousText oldText || oldEmpty == newEmpty)
    | _, _ => false
  | none, none => true
  | _, _ => false

def itemsMatch (oldSource newSource : List Char) :
    Option (Nat × List Char) → Option Nat → List (StructuralLexItem Kind) →
    List (StructuralLexItem Kind) → Bool
  | _, _, .ended :: _, .ended :: _ => true
  | oldPrevious, newPreviousEnd, .token oldKind oldText oldStart oldEnd :: oldRest,
      .token newKind newText newStart newEnd :: newRest =>
      if oldKind = newKind ∧ oldText = newText then
        if gapsMatch oldSource newSource oldPrevious newPreviousEnd oldText oldStart newStart then
          itemsMatch oldSource newSource (some (oldEnd, oldText)) (some newEnd) oldRest newRest
        else false
      else false
  | _, _, _, _ => false

def structuralTokensMatch (frontend : Frontend Kind) (oldSource newSource : List Char) : Bool :=
  itemsMatch oldSource newSource none none
    (structuralItems frontend (frontend.tokens oldSource))
    (structuralItems frontend (frontend.tokens newSource))

/-- The loop of `try_new` between two edits. -/
structure Progress where
  normalized : List NormalizedEdit
  oldCursor : Nat
  newCursor : Nat
  cumulativeShift : Int

/-- An insertion and then a non-empty edit at one original boundary. -/
def mixedOverlap (normalized : List NormalizedEdit) (oldStart oldEnd : Nat) : Bool :=
  normalized.getLast?.any fun previous =>
    previous.oldStart = oldStart ∧ previous.oldStart = previous.oldEnd ∧ oldStart ≠ oldEnd

def admitEdit (frontend : Frontend Kind) (oldSource newSource : List Char) (progress : Progress)
    (edit : Edit) : Option Progress := do
  let oldStart ← originalCoordinate edit.startByte progress.cumulativeShift
  let oldEnd ← originalCoordinate edit.oldEndByte progress.cumulativeShift
  let newStart := edit.startByte
  let newEnd := edit.newEndByte
  if oldStart < progress.oldCursor ∨ oldEnd < oldStart ∨ newStart < progress.newCursor ∨
      newEnd < newStart then none
  else if mixedOverlap progress.normalized oldStart oldEnd then none
  else
    let oldGap ← slice oldSource progress.oldCursor oldStart
    let newGap ← slice newSource progress.newCursor newStart
    if oldGap ≠ newGap then none
    else
      let removed ← slice oldSource oldStart oldEnd
      let inserted ← slice newSource newStart newEnd
      if !removed.all isWhitespace || !inserted.all isWhitespace then none
      else if !rangeIsCode (frontend.build oldSource) oldStart oldEnd ||
          !rangeIsCode (frontend.build newSource) newStart newEnd then none
      else
        let cumulativeShift ← checkedAdd progress.cumulativeShift edit.byteShift
        some
          { normalized := progress.normalized ++ [⟨oldStart, oldEnd, newStart, newEnd, edit.byteShift⟩]
            oldCursor := oldEnd
            newCursor := newEnd
            cumulativeShift := cumulativeShift }

structure WhitespaceEditMap where
  edits : List NormalizedEdit
  deriving DecidableEq

def WhitespaceEditMap.tryNew (frontend : Frontend Kind) (oldSource newSource : List Char)
    (edits : List Edit) : Option WhitespaceEditMap := do
  if edits.isEmpty ∨ maxIncrementalEditBatch < edits.length then none
  else
    let progress ← edits.foldlM (admitEdit frontend oldSource newSource) ⟨[], 0, 0, 0⟩
    let oldRest ← slice oldSource progress.oldCursor (size oldSource)
    let newRest ← slice newSource progress.newCursor (size newSource)
    if oldRest ≠ newRest ∨
        shiftedPosition (size oldSource) progress.cumulativeShift ≠ size newSource ∨
        !structuralTokensMatch frontend oldSource newSource then none
    else some ⟨progress.normalized⟩

end Admission

section Mapping

structure SourceLocation where
  start : Nat
  stop : Nat
  deriving DecidableEq

def mapPositionFrom (position : Nat) (bias : Bias) : Int → List NormalizedEdit → Nat
  | cumulativeShift, [] => shiftedPosition position cumulativeShift
  | cumulativeShift, edit :: rest =>
    if position < edit.oldStart then shiftedPosition position cumulativeShift
    else if edit.oldStart = edit.oldEnd ∧ position = edit.oldStart then
      -- every insertion at this boundary is consumed
      mapPositionFrom position bias
        (if bias = .right then saturatingAddShift cumulativeShift edit.byteShift
          else cumulativeShift) rest
    else if position < edit.oldEnd then
      if bias = .left then edit.newStart else edit.newEnd
    else mapPositionFrom position bias (saturatingAddShift cumulativeShift edit.byteShift) rest

def WhitespaceEditMap.mapPosition (map : WhitespaceEditMap) (position : Nat) (bias : Bias) : Nat :=
  mapPositionFrom position bias 0 map.edits

def WhitespaceEditMap.mapLocation (map : WhitespaceEditMap) (location : SourceLocation) :
    SourceLocation :=
  if location.start = location.stop then
    let anchor := map.mapPosition location.start .right
    ⟨anchor, anchor⟩
  else
    let start := map.mapPosition location.start .right
    ⟨start, max (map.mapPosition location.stop .left) start⟩

structure Token where
  text : List Char
  start : Nat
  stop : Nat

/-- A node: its kind, the spans stored in it, an error node's recovery token, its location and its
children. -/
inductive Node (Kind : Type) where
  | mk (kind : Kind) (spans : List SourceLocation) (found : Option Token)
      (location : SourceLocation) (children : List (Node Kind))

variable {Kind : Type}

def Node.location : Node Kind → SourceLocation
  | .mk _ _ _ location _ => location

def Node.children : Node Kind → List (Node Kind)
  | .mk _ _ _ _ children => children

variable (map : SourceLocation → SourceLocation)

/-- `map_token_span`. The mapped token keeps its width, so `with_span` does not refuse it. -/
def mapTokenSpan (token : Token) : Option Token :=
  let mapped := map ⟨token.start, token.stop⟩
  let mappedEnd := mapped.start + (token.stop - token.start)
  if usizeMax < mappedEnd then none else some { token with start := mapped.start, stop := mappedEnd }

def mapFound : Option Token → Option (Option Token)
  | none => some none
  | some token => (mapTokenSpan map token).map some

mutual

def Node.cloneWithMappedLocations (map : SourceLocation → SourceLocation) :
    Node Kind → Option (Node Kind)
  | .mk kind spans found location children =>
    match cloneChildren map children, mapFound map found with
    | some children, some found =>
      some (.mk kind (spans.map map) found (map location) children)
    | _, _ => none

def cloneChildren (map : SourceLocation → SourceLocation) : List (Node Kind) → Option (List (Node Kind))
  | [] => some []
  | child :: rest =>
    match child.cloneWithMappedLocations map, cloneChildren map rest with
    | some child, some rest => some (child :: rest)
    | _, _ => none

end

/-- `cloned.location.start = start` -/
def Node.anchoredAt (start : Nat) : Node Kind → Node Kind
  | .mk kind spans found location children => .mk kind spans found ⟨start, location.stop⟩ children

def WhitespaceEditMap.cloneTree (map : WhitespaceEditMap) (root : Node Kind) : Option (Node Kind) :=
  (root.cloneWithMappedLocations map.mapLocation).map (Node.anchoredAt root.location.start)

end Mapping

section Alignment
variable {Kind : Type} {frontend : Frontend Kind} {oldSource newSource : List Char}

def NormalizedEdit.piece (edit : NormalizedEdit) : Piece :=
  ⟨edit.oldStart, edit.oldEnd, edit.newStart, edit.newEnd⟩

def WhitespaceEditMap.pieces (map : WhitespaceEditMap) : List Piece :=
  map.edits.map NormalizedEdit.piece

structure Recorded (edit : NormalizedEdit) : Prop where
  shift : edit.byteShift = edit.newEnd - edit.oldEnd - (edit.newStart - edit.oldStart : Int)
  low : isizeMin ≤ (edit.newEnd : Int) - edit.oldEnd
  high : (edit.newEnd : Int) - edit.oldEnd ≤ isizeMax

def Separate (earlier later : NormalizedEdit) : Prop :=
  earlier.oldStart = earlier.oldEnd → later.oldStart = earlier.oldStart →
    later.oldEnd = later.oldStart

structure Sound (oldSource newSource : List Char) (progress : Progress) : Prop where
  aligned : ∀ pieces, Aligned oldSource newSource progress.oldCursor progress.newCursor pieces →
    Aligned oldSource newSource 0 0 (progress.normalized.map NormalizedEdit.piece ++ pieces)
  recorded : ∀ edit ∈ progress.normalized, Recorded edit
  separate : progress.normalized.IsChain Separate
  shift : progress.cumulativeShift = (progress.newCursor : Int) - progress.oldCursor

/-- What an admitted edit passes and records. -/
theorem admit_edit_cases {progress next : Progress} {edit : Edit}
    (admitted : admitEdit frontend oldSource newSource progress edit = some next) :
    ∃ oldStart oldEnd gap removed inserted,
      originalCoordinate edit.startByte progress.cumulativeShift = some oldStart ∧
        originalCoordinate edit.oldEndByte progress.cumulativeShift = some oldEnd ∧
        mixedOverlap progress.normalized oldStart oldEnd = false ∧
        slice oldSource progress.oldCursor oldStart = some gap ∧
        slice newSource progress.newCursor edit.startByte = some gap ∧
        slice oldSource oldStart oldEnd = some removed ∧
        slice newSource edit.startByte edit.newEndByte = some inserted ∧
        checkedAdd progress.cumulativeShift edit.byteShift = some next.cumulativeShift ∧
        next.oldCursor = oldEnd ∧ next.newCursor = edit.newEndByte ∧
        next.normalized = progress.normalized ++
          [⟨oldStart, oldEnd, edit.startByte, edit.newEndByte, edit.byteShift⟩] := by
  unfold admitEdit at admitted
  simp only [bind_eq_bind, bind_eq_some_iff] at admitted
  obtain ⟨oldStart, start, oldEnd, stop, admitted⟩ := admitted
  split at admitted
  · cases admitted
  split at admitted
  · cases admitted
  rename_i mixed
  simp only [bind_eq_some_iff] at admitted
  obtain ⟨gap, oldGap, newGap, sameGap, admitted⟩ := admitted
  split at admitted
  · cases admitted
  rename_i same
  obtain rfl := not_not.mp same
  simp only [bind_eq_some_iff] at admitted
  obtain ⟨removed, oldPiece, inserted, newPiece, admitted⟩ := admitted
  split at admitted
  · cases admitted
  split at admitted
  · cases admitted
  obtain ⟨shift, added, result⟩ := Option.bind_eq_some_iff.mp admitted
  obtain rfl := Option.some.inj result
  exact ⟨oldStart, oldEnd, gap, removed, inserted, start, stop, by simpa using mixed,
    oldGap, sameGap, oldPiece, newPiece, added, rfl, rfl, rfl⟩

theorem original_coordinate_some {coordinate original : Nat} {shift : Int}
    (mapped : originalCoordinate coordinate shift = some original) :
    (original : Int) = coordinate - shift := by
  unfold originalCoordinate at mapped
  split at mapped
  · cases mapped
  dsimp only at mapped
  split at mapped
  · cases mapped
  split at mapped
  · cases mapped
  · rename_i positive
    obtain rfl := Option.some.inj mapped
    exact Int.toNat_of_nonneg (Int.not_lt.mp positive)

theorem checked_add_some {left right sum : Int} (added : checkedAdd left right = some sum) :
    sum = left + right ∧ isizeMin ≤ sum ∧ sum ≤ isizeMax := by
  unfold checkedAdd at added
  split at added
  · cases added
  · obtain rfl := Option.some.inj added
    omega

theorem admit_edit_sound {progress next : Progress} {edit : Edit}
    (sound : Sound oldSource newSource progress)
    (admitted : admitEdit frontend oldSource newSource progress edit = some next) :
    Sound oldSource newSource next := by
  obtain ⟨oldStart, oldEnd, gap, removed, inserted, start, stop, mixed, oldGap, newGap, oldPiece,
    newPiece, added, oldCursor, newCursor, normalized⟩ := admit_edit_cases admitted
  have starts := original_coordinate_some start
  have stops := original_coordinate_some stop
  obtain ⟨sum, low, high⟩ := checked_add_some added
  have shift : next.cumulativeShift = (next.newCursor : Int) - next.oldCursor := by
    rw [sum, newCursor, Edit.byteShift]
    omega
  constructor
  · intro pieces behind
    rw [oldCursor, newCursor] at behind
    have joined := sound.aligned _ (.piece _ _ ⟨oldStart, oldEnd, edit.startByte, edit.newEndByte⟩ pieces gap
      removed inserted oldGap newGap oldPiece newPiece behind)
    rw [normalized, map_append, append_assoc]
    exact joined
  · intro entry among
    rw [normalized] at among
    rcases mem_append.mp among with among | among
    · exact sound.recorded entry among
    obtain rfl := mem_singleton.mp among
    rw [shift, oldCursor, newCursor] at low high
    refine ⟨?_, low, high⟩
    change edit.byteShift = (edit.newEndByte : Int) - oldEnd - (edit.startByte - oldStart)
    omega
  · rw [normalized]
    refine isChain_append.mpr ⟨sound.separate, isChain_singleton _, ?_⟩
    intro previous last entry head empty same
    obtain rfl := Option.some.inj head
    rw [mixedOverlap, last, any_some, decide_eq_false_iff_not] at mixed
    by_contra different
    exact mixed ⟨same.symm, empty, fun equal => different equal.symm⟩
  · exact shift

theorem admit_edits_sound {progress next : Progress} (edits : List Edit)
    (sound : Sound oldSource newSource progress)
    (admitted : edits.foldlM (admitEdit frontend oldSource newSource) progress = some next) :
    Sound oldSource newSource next := by
  induction edits generalizing progress with
  | nil =>
    obtain rfl := Option.some.inj admitted
    exact sound
  | cons edit rest ih =>
    rw [foldlM_cons, bind_eq_bind, bind_eq_some_iff] at admitted
    obtain ⟨middle, first, later⟩ := admitted
    exact ih (admit_edit_sound sound first) later

structure Admitted (oldSource newSource : List Char) (map : WhitespaceEditMap) : Prop where
  aligned : Aligned oldSource newSource 0 0 map.pieces
  recorded : ∀ edit ∈ map.edits, Recorded edit
  separate : map.edits.IsChain Separate

theorem try_new_admitted [DecidableEq Kind] {edits : List Edit} {map : WhitespaceEditMap}
    (admitted : WhitespaceEditMap.tryNew frontend oldSource newSource edits = some map) :
    Admitted oldSource newSource map := by
  unfold WhitespaceEditMap.tryNew at admitted
  split at admitted
  · cases admitted
  simp only [bind_eq_bind, bind_eq_some_iff] at admitted
  obtain ⟨progress, folded, oldRest, old, newRest, new, admitted⟩ := admitted
  split at admitted
  · cases admitted
  rename_i agrees
  obtain rfl := Option.some.inj admitted
  have begins : Sound oldSource newSource ⟨[], 0, 0, 0⟩ :=
    ⟨fun _ behind => behind, fun _ among => absurd among not_mem_nil, isChain_nil, rfl⟩
  have sound := admit_edits_sound edits begins folded
  have same : oldRest = newRest := by
    by_contra different
    exact agrees (.inl different)
  subst same
  have aligned := sound.aligned [] (.ended _ _ oldRest old new)
  rw [append_nil] at aligned
  exact ⟨aligned, sound.recorded, sound.separate⟩

end Alignment

section Positions
variable {oldSource newSource : List Char}
variable {position : Nat}

theorem shifted_position_eq {place : Nat} {shift : Int} (same : (place : Int) = position + shift)
    (fits : place ≤ usizeMax) : shiftedPosition position shift = place := by
  unfold shiftedPosition
  split <;> omega

theorem saturating_add_eq {left right sum : Int} (same : left + right = sum) (low : isizeMin ≤ sum)
    (high : sum ≤ isizeMax) : saturatingAddShift left right = sum := by
  unfold saturatingAddShift
  omega

/-- On the left side the insertions at a position are passed by. -/
theorem map_position_left_stays {shift : Int} (edits : List NormalizedEdit)
    (ahead : ∀ edit ∈ edits, position ≤ edit.oldStart)
    (empty : ∀ edit ∈ edits, edit.oldStart = position → edit.oldEnd = edit.oldStart) :
    mapPositionFrom position .left shift edits = shiftedPosition position shift := by
  induction edits with
  | nil => rfl
  | cons edit rest ih =>
    rw [mapPositionFrom]
    split
    · rfl
    have here : edit.oldStart = position := by
      have after := ahead edit mem_cons_self
      omega
    have inserts := empty edit mem_cons_self here
    rw [if_pos ⟨inserts.symm, here.symm⟩]
    exact ih (fun other among => ahead other (mem_cons_of_mem _ among))
      (fun other among => empty other (mem_cons_of_mem _ among))

theorem separate_insertions {edit : NormalizedEdit} {rest : List NormalizedEdit} {newFrom : Nat}
    (separate : (edit :: rest).IsChain Separate) (inserts : edit.oldStart = edit.oldEnd)
    (aligned : Aligned oldSource newSource edit.oldEnd newFrom (rest.map NormalizedEdit.piece)) :
    ∀ other ∈ rest, other.oldStart = edit.oldStart → other.oldEnd = other.oldStart := by
  induction rest generalizing edit newFrom with
  | nil => exact fun _ among => absurd among not_mem_nil
  | cons next rest ih =>
    obtain ⟨first, chain⟩ := isChain_cons_cons.mp separate
    obtain ⟨order, removes, -, -, behind⟩ := aligned.gap
    intro other among same
    rcases mem_cons.mp among with rfl | among
    · exact first inserts same
    have later := (behind.later other.piece (mem_map_of_mem among)).1
    have here : next.oldStart = edit.oldStart := by
      change edit.oldEnd ≤ next.oldStart at order
      change next.oldStart ≤ next.oldEnd at removes
      change next.oldEnd ≤ other.oldStart at later
      omega
    have empty := first inserts here
    exact ih chain empty.symm behind other among (by omega)

/-- The loop of `map_position` finds the place of the alignment. -/
theorem map_position_from_image (bias : Bias) {oldFrom newFrom : Nat} {edits : List NormalizedEdit}
    {shift : Int} (aligned : Aligned oldSource newSource oldFrom newFrom (edits.map NormalizedEdit.piece))
    (recorded : ∀ edit ∈ edits, Recorded edit) (separate : edits.IsChain Separate)
    (shifted : shift = (newFrom : Int) - oldFrom) (low : oldFrom ≤ position)
    (high : position ≤ size oldSource) (room : size newSource ≤ usizeMax) :
    mapPositionFrom position bias shift edits =
      image bias oldFrom newFrom (edits.map NormalizedEdit.piece) position := by
  have fits := image_inside bias aligned low high
  induction edits generalizing oldFrom newFrom shift with
  | nil =>
    rw [map_nil, image] at fits
    rw [mapPositionFrom, map_nil, image]
    exact shifted_position_eq (by omega) (by omega)
  | cons edit rest ih =>
    obtain ⟨order, removes, place, inserts, behind⟩ := aligned.gap
    change oldFrom ≤ edit.oldStart at order
    change edit.oldStart ≤ edit.oldEnd at removes
    change newFrom + (edit.oldStart - oldFrom) = edit.newStart at place
    change Aligned _ _ edit.oldEnd edit.newEnd (rest.map NormalizedEdit.piece) at behind
    obtain ⟨byteShift, lowest, highest⟩ := recorded edit mem_cons_self
    have others := fun other among => recorded other (mem_cons_of_mem edit among)
    have chain := separate.tail
    have added : saturatingAddShift shift edit.byteShift = (edit.newEnd : Int) - edit.oldEnd :=
      saturating_add_eq (by omega) lowest highest
    rw [map_cons, image] at fits
    rw [mapPositionFrom, map_cons, image]
    change (if position < edit.oldStart then _ else _) ≤ _ at fits
    change _ = if position < edit.oldStart then _ else _
    by_cases before : position < edit.oldStart
    · rw [if_pos before] at fits
      rw [if_pos before, if_pos before]
      exact shifted_position_eq (by omega) (by omega)
    rw [if_neg before] at fits
    rw [if_neg before, if_neg before]
    by_cases insertion : edit.oldStart = edit.oldEnd ∧ position = edit.oldStart
    · rw [if_pos insertion]
      cases bias with
      | left =>
        have here : position < edit.oldEnd ∨
            Bias.left = .left ∧ edit.oldStart = edit.oldEnd ∧ position = edit.oldEnd :=
          .inr ⟨rfl, insertion.1, by omega⟩
        have stays := @map_position_left_stays position shift rest (fun other among => by
            have later := (behind.later other.piece (mem_map_of_mem among)).1
            change edit.oldEnd ≤ other.oldStart at later
            omega)
          (fun other among same =>
            separate_insertions separate insertion.1 behind other among (by omega))
        have inside := behind.inside.2
        rw [if_neg (by decide : ¬ Bias.left = Bias.right), stays]
        refine Eq.trans ?_ (if_pos here).symm
        exact shifted_position_eq (by change (edit.newStart : Int) = _; omega)
          (by change edit.newStart ≤ _; change edit.newStart ≤ edit.newEnd at inserts; omega)
      | right =>
        have past : ¬ (position < edit.oldEnd ∨
            Bias.right = .left ∧ edit.oldStart = edit.oldEnd ∧ position = edit.oldEnd) := by
          simp
          omega
        have step := ih behind others chain rfl (by omega) (image_inside .right behind (by omega) high)
        rw [if_pos rfl, added, step]
        exact (if_neg past).symm
    · rw [if_neg insertion]
      by_cases inner : position < edit.oldEnd
      · rw [if_pos inner]
        refine Eq.trans ?_ (if_pos (.inl inner)).symm
        cases bias <;> rfl
      have past : ¬ (position < edit.oldEnd ∨
          bias = .left ∧ edit.oldStart = edit.oldEnd ∧ position = edit.oldEnd) := by
        rintro (less | ⟨-, empty, same⟩)
        · exact inner less
        · exact insertion ⟨empty, by omega⟩
      have step := ih behind others chain rfl (by omega) (image_inside bias behind (by omega) high)
      rw [if_neg inner, added, step]
      exact (if_neg past).symm

theorem map_position_image {map : WhitespaceEditMap} (admitted : Admitted oldSource newSource map)
    (room : size newSource ≤ usizeMax) (bias : Bias) (inside : position ≤ size oldSource) :
    map.mapPosition position bias = image bias 0 0 map.pieces position :=
  map_position_from_image bias admitted.aligned admitted.recorded admitted.separate rfl
    (Nat.zero_le _) inside room

end Positions

section Trees
variable {Kind : Type}

def locations (children : List (Node Kind)) : List SourceLocation := children.map Node.location

mutual

def Node.Each (holds : SourceLocation → List SourceLocation → Prop) : Node Kind → Prop
  | .mk _ _ _ location children => holds location (locations children) ∧ EachOf holds children

def EachOf (holds : SourceLocation → List SourceLocation → Prop) : List (Node Kind) → Prop
  | [] => True
  | child :: rest => child.Each holds ∧ EachOf holds rest

end

def SourceLocation.Contains (parent child : SourceLocation) : Prop :=
  parent.start ≤ child.start ∧ child.stop ≤ parent.stop

def SourceLocation.ValidIn (location : SourceLocation) (length : Nat) : Prop :=
  location.start ≤ location.stop ∧ location.stop ≤ length

variable (root : Node Kind)

def Node.Contained : Prop :=
  root.Each fun parent children => ∀ child ∈ children, parent.Contains child

def Node.SiblingsInOrder : Prop :=
  root.Each fun _ children => children.Pairwise fun earlier later => earlier.start ≤ later.start

/-- Each sibling ends before the next ones begin. -/
def Node.SiblingsApart : Prop :=
  root.Each fun _ children => children.Pairwise fun earlier later => earlier.stop ≤ later.start

def Node.ValidIn (length : Nat) : Prop :=
  root.Each fun location _ => location.ValidIn length

mutual

theorem each_iff {given left right : SourceLocation → List SourceLocation → Prop}
    (agree : ∀ location children, given location children →
      (left location children ↔ right location children)) :
    ∀ root : Node Kind, root.Each given → (root.Each left ↔ root.Each right)
  | .mk _ _ _ location children, holds => by
      rw [Node.Each] at holds
      rw [Node.Each, Node.Each, agree _ _ holds.1, each_of_iff agree children holds.2]

theorem each_of_iff {given left right : SourceLocation → List SourceLocation → Prop}
    (agree : ∀ location children, given location children →
      (left location children ↔ right location children)) :
    ∀ children : List (Node Kind), EachOf given children → (EachOf left children ↔ EachOf right children)
  | [], _ => Iff.rfl
  | child :: rest, holds => by
      rw [EachOf] at holds
      rw [EachOf, EachOf, each_iff agree child holds.1, each_of_iff agree rest holds.2]

end

theorem Node.Each.mono {given holds : SourceLocation → List SourceLocation → Prop} {root : Node Kind}
    (each : root.Each given) (imply : ∀ location children, given location children →
      holds location children) : root.Each holds := by
  refine (each_iff (fun location children holding => ?_) root each).mp each
  exact iff_of_true holding (imply location children holding)

mutual

theorem each_and {left right : SourceLocation → List SourceLocation → Prop} :
    ∀ root : Node Kind, root.Each left → root.Each right →
      root.Each fun location children => left location children ∧ right location children
  | .mk _ _ _ location children, first, second => by
      rw [Node.Each] at first second ⊢
      exact ⟨⟨first.1, second.1⟩, each_of_and children first.2 second.2⟩

theorem each_of_and {left right : SourceLocation → List SourceLocation → Prop} :
    ∀ children : List (Node Kind), EachOf left children → EachOf right children →
      EachOf (fun location children => left location children ∧ right location children) children
  | [], _, _ => trivial
  | child :: rest, first, second => by
      rw [EachOf] at first second ⊢
      exact ⟨each_and child first.1 second.1, each_of_and rest first.2 second.2⟩

end

theorem Node.Each.here {holds : SourceLocation → List SourceLocation → Prop} {root : Node Kind}
    (each : root.Each holds) : holds root.location (locations root.children) := by
  cases root with
  | mk kind spans found location children =>
    exact each.1

theorem each_of_locations {valid : SourceLocation → Prop} (children : List (Node Kind))
    (each : EachOf (fun location _ => valid location) children) :
    ∀ location ∈ locations children, valid location := by
  induction children with
  | nil => exact fun _ among => absurd among not_mem_nil
  | cons child rest ih =>
    intro location among
    rcases mem_cons.mp among with rfl | among
    · exact each.1.here
    · exact ih each.2 location among

mutual

/-- A fact of every location is known at a node of its children too. -/
theorem each_with_children {valid : SourceLocation → Prop} :
    ∀ root : Node Kind, (root.Each fun location _ => valid location) →
      root.Each fun location children => valid location ∧ ∀ child ∈ children, valid child
  | .mk _ _ _ location children, each => by
      rw [Node.Each] at each ⊢
      exact ⟨⟨each.1, each_of_locations children each.2⟩, each_of_with_children children each.2⟩

theorem each_of_with_children {valid : SourceLocation → Prop} :
    ∀ children : List (Node Kind), EachOf (fun location _ => valid location) children →
      EachOf (fun location children => valid location ∧ ∀ child ∈ children, valid child) children
  | [], _ => trivial
  | child :: rest, each => by
      rw [EachOf] at each ⊢
      exact ⟨each_with_children child each.1, each_of_with_children rest each.2⟩

end

section
variable {map : SourceLocation → SourceLocation}
include map

theorem clone_parts {kind : Kind}
    {spans : List SourceLocation} {found : Option Token} {location : SourceLocation}
    {children : List (Node Kind)} {cloned : Node Kind}
    (copied : (Node.mk kind spans found location children).cloneWithMappedLocations map = some cloned) :
    ∃ mapped token, cloneChildren map children = some mapped ∧
      cloned = .mk kind (spans.map map) token (map location) mapped := by
  rw [Node.cloneWithMappedLocations] at copied
  split at copied
  · next mapped token each _ =>
    exact ⟨mapped, token, each, (Option.some.inj copied).symm⟩
  · cases copied

theorem clone_children_parts {child : Node Kind}
    {rest cloned : List (Node Kind)} (copied : cloneChildren map (child :: rest) = some cloned) :
    ∃ first others, child.cloneWithMappedLocations map = some first ∧
      cloneChildren map rest = some others ∧ cloned = first :: others := by
  rw [cloneChildren] at copied
  split at copied
  · next first others head tail =>
    exact ⟨first, others, head, tail, (Option.some.inj copied).symm⟩
  · cases copied

theorem clone_location {root cloned : Node Kind}
    (copied : root.cloneWithMappedLocations map = some cloned) : cloned.location = map root.location := by
  cases root with
  | mk kind spans found location children =>
    obtain ⟨mapped, token, -, rfl⟩ := clone_parts copied
    rfl

theorem clone_children_locations
    {children cloned : List (Node Kind)} (copied : cloneChildren map children = some cloned) :
    locations cloned = (locations children).map map := by
  induction children generalizing cloned with
  | nil =>
    obtain rfl := Option.some.inj copied
    rfl
  | cons child rest ih =>
    obtain ⟨first, others, head, tail, rfl⟩ := clone_children_parts copied
    change first.location :: locations others = _
    rw [clone_location head, ih tail]
    rfl

end

mutual

/-- A cloned tree says of the mapped locations what the tree says of its own. -/
theorem clone_each (map : SourceLocation → SourceLocation)
    (holds : SourceLocation → List SourceLocation → Prop) :
    ∀ root cloned : Node Kind, root.cloneWithMappedLocations map = some cloned → (cloned.Each holds ↔
        root.Each fun location children => holds (map location) (children.map map))
  | .mk _ _ _ location children, cloned, copied => by
      obtain ⟨mapped, token, each, rfl⟩ := clone_parts copied
      rw [Node.Each, Node.Each, clone_children_locations each, clone_each_of map holds children mapped each]

theorem clone_each_of (map : SourceLocation → SourceLocation)
    (holds : SourceLocation → List SourceLocation → Prop) :
    ∀ children cloned : List (Node Kind), cloneChildren map children = some cloned → (EachOf holds cloned ↔
        EachOf (fun location children => holds (map location) (children.map map)) children)
  | [], cloned, copied => by
      rw [cloneChildren] at copied
      obtain rfl := Option.some.inj copied
      exact Iff.rfl
  | child :: rest, cloned, copied => by
      obtain ⟨first, others, head, tail, rfl⟩ := clone_children_parts copied
      rw [EachOf, EachOf, clone_each map holds child first head, clone_each_of map holds rest others tail]

end

end Trees

section Locations
variable {Kind : Type} {oldSource newSource : List Char} {map : WhitespaceEditMap}

section
variable (admitted : Admitted oldSource newSource map) (room : size newSource ≤ usizeMax)
include admitted room

theorem map_location_parts {location : SourceLocation} (valid : location.ValidIn (size oldSource)) :
    (map.mapLocation location).start = image .right 0 0 map.pieces location.start ∧
      (map.mapLocation location).stop = max (image .left 0 0 map.pieces location.stop)
        (image .right 0 0 map.pieces location.start) := by
  have first := map_position_image admitted room .right (Nat.le_trans valid.1 valid.2)
  have last := map_position_image admitted room .left valid.2
  have sides := image_left_right admitted.aligned location.start
  unfold WhitespaceEditMap.mapLocation
  split
  · rename_i empty
    refine ⟨first, ?_⟩
    rw [← empty, Nat.max_eq_right sides]
    exact first
  · refine ⟨first, ?_⟩
    change max _ _ = _
    rw [first, last]

/-- A child stays inside its parent unless new text carries it past the parent's end. -/
theorem map_location_contains {parent child : SourceLocation}
    (outer : parent.ValidIn (size oldSource)) (inner : child.ValidIn (size oldSource))
    (contains : parent.Contains child) : (map.mapLocation parent).start ≤ (map.mapLocation child).start ∧
      ((map.mapLocation parent).Contains (map.mapLocation child) ↔
        ¬ Escapes map.pieces parent.start child.start parent.stop) := by
  obtain ⟨parentStart, parentStop⟩ := map_location_parts admitted room outer
  obtain ⟨childStart, childStop⟩ := map_location_parts admitted room inner
  have starts := image_mono .right admitted.aligned (Nat.zero_le _) contains.1
  have stops := image_mono .left admitted.aligned (Nat.zero_le _) contains.2
  have crossing := behind_span_iff admitted.aligned (Nat.zero_le _) contains.1
    (Nat.le_trans inner.1 contains.2)
  rw [SourceLocation.Contains, parentStart, parentStop, childStart, childStop, ← crossing]
  omega

theorem map_location_order {earlier later : SourceLocation}
    (first : earlier.ValidIn (size oldSource)) (second : later.ValidIn (size oldSource)) :
    (earlier.start ≤ later.start → (map.mapLocation earlier).start ≤ (map.mapLocation later).start) ∧
      (earlier.stop ≤ later.start → (map.mapLocation earlier).stop ≤ (map.mapLocation later).start) := by
  obtain ⟨earlierStart, earlierStop⟩ := map_location_parts admitted room first
  obtain ⟨laterStart, -⟩ := map_location_parts admitted room second
  rw [earlierStart, earlierStop, laterStart]
  constructor
  · exact image_mono .right admitted.aligned (Nat.zero_le _)
  · intro apart
    have sides := image_left_right admitted.aligned earlier.stop
    have stops := image_mono .right admitted.aligned (Nat.zero_le _) apart
    have starts := image_mono .right admitted.aligned (Nat.zero_le _) first.1
    omega

end

variable {root : Node Kind}

theorem clone_tree_parts {cloned : Node Kind} (copied : map.cloneTree root = some cloned) :
    ∃ inner, root.cloneWithMappedLocations map.mapLocation = some inner ∧
      cloned = inner.anchoredAt root.location.start := by
  obtain ⟨inner, each, same⟩ := Option.map_eq_some_iff.mp copied
  exact ⟨inner, each, same.symm⟩

/-- What is asked of siblings alone does not see the root's own location. -/
theorem anchored_siblings (start : Nat) (siblings : List SourceLocation → Prop) (root : Node Kind) :
    (root.anchoredAt start).Each (fun _ children => siblings children) ↔
      root.Each fun _ children => siblings children := by
  cases root with
  | mk kind spans found location children => rw [Node.anchoredAt, Node.Each, Node.Each]

theorem anchored_contained {start : Nat}
    (below : ∀ child ∈ locations root.children, root.location.start ≤ child.start) :
    (root.anchoredAt start).Contained ↔
      root.Contained ∧ ∀ child ∈ locations root.children, start ≤ child.start := by
  cases root with
  | mk kind spans found location children =>
    rw [Node.anchoredAt, Node.Contained, Node.Contained, Node.Each, Node.Each]
    constructor
    · rintro ⟨here, others⟩
      exact ⟨⟨fun child among => ⟨below child among, (here child among).2⟩, others⟩,
        fun child among => (here child among).1⟩
    · rintro ⟨⟨here, others⟩, starts⟩
      exact ⟨fun child among => ⟨starts child among, (here child among).2⟩, others⟩

theorem cloned_siblings (admitted : Admitted oldSource newSource map)
    (room : size newSource ≤ usizeMax) {cloned : Node Kind} (valid : root.ValidIn (size oldSource))
    (copied : map.cloneTree root = some cloned) :
    (root.SiblingsInOrder → cloned.SiblingsInOrder) ∧ (root.SiblingsApart → cloned.SiblingsApart) := by
  obtain ⟨inner, each, rfl⟩ := clone_tree_parts copied
  have known := each_with_children root valid
  constructor
  · intro ordered
    refine (anchored_siblings _ _ inner).mpr ((clone_each _ _ root inner each).mpr ?_)
    refine (each_and root known ordered).mono fun location children both => ?_
    refine pairwise_map.mpr (both.2.imp_of_mem fun first second order => ?_)
    exact (map_location_order admitted room (both.1.2 _ first) (both.1.2 _ second)).1 order
  · intro apart
    refine (anchored_siblings _ _ inner).mpr ((clone_each _ _ root inner each).mpr ?_)
    refine (each_and root known apart).mono fun location children both => ?_
    refine pairwise_map.mpr (both.2.imp_of_mem fun first second order => ?_)
    exact (map_location_order admitted room (both.1.2 _ first) (both.1.2 _ second)).2 order

def Node.NoneEscapes (map : WhitespaceEditMap) (root : Node Kind) : Prop :=
  root.Each fun parent children =>
    ∀ child ∈ children, ¬ Escapes map.pieces parent.start child.start parent.stop

theorem cloned_contained (admitted : Admitted oldSource newSource map)
    (room : size newSource ≤ usizeMax) {cloned : Node Kind} (valid : root.ValidIn (size oldSource))
    (contained : root.Contained) (copied : map.cloneTree root = some cloned) :
    cloned.Contained ↔ root.NoneEscapes map ∧
      ∀ child ∈ locations root.children, root.location.start ≤ (map.mapLocation child).start := by
  obtain ⟨inner, each, rfl⟩ := clone_tree_parts copied
  have known := each_and root (each_with_children root valid) contained
  have children : locations inner.children = (locations root.children).map map.mapLocation := by
    cases root with
    | mk kind spans found location children =>
      obtain ⟨mapped, token, others, rfl⟩ := clone_parts each
      exact clone_children_locations others
  have below : ∀ child ∈ locations inner.children, inner.location.start ≤ child.start := by
    intro child among
    rw [children] at among
    obtain ⟨old, held, rfl⟩ := mem_map.mp among
    obtain ⟨⟨outer, inside⟩, contains⟩ := known.here
    rw [clone_location each]
    exact (map_location_contains admitted room outer (inside old held) (contains old held)).1
  have same : inner.Contained ↔ root.NoneEscapes map := by
    refine (clone_each _ _ root inner each).trans (each_iff (fun parent children holds => ?_) root known)
    obtain ⟨⟨outer, inside⟩, contains⟩ := holds
    rw [List.forall_mem_map]
    refine forall₂_congr fun child among => ?_
    exact (map_location_contains admitted room outer (inside child among) (contains child among)).2
  rw [anchored_contained below, same, children, List.forall_mem_map]

end Locations

/-- The map of an admitted edit batch: positions keep their order, stay in the new source and go to
its scalar boundaries, the left image not behind the right one; an untouched span keeps its text;
the cloned tree keeps the order of siblings, and containment exactly where no child escapes its
parent and no child of the root goes before the root's kept start. -/
theorem whitespace_edits_mapped {Kind Shape : Type} [DecidableEq Kind] (frontend : Frontend Kind)
    (oldSource newSource : List Char) (edits : List Edit) (map : WhitespaceEditMap)
    (room : size newSource ≤ usizeMax)
    (accepted : WhitespaceEditMap.tryNew frontend oldSource newSource edits = some map) :
    (∀ bias earlier later, earlier ≤ later → later ≤ size oldSource →
        map.mapPosition earlier bias ≤ map.mapPosition later bias) ∧
      (∀ bias position, position ≤ size oldSource → map.mapPosition position bias ≤ size newSource ∧
          (isCharBoundary oldSource position = true →
            isCharBoundary newSource (map.mapPosition position bias) = true)) ∧
      (∀ position, position ≤ size oldSource →
        map.mapPosition position .left ≤ map.mapPosition position .right) ∧
      (∀ start stop content, slice oldSource start stop = some content →
        Untouched map.pieces start stop →
        slice newSource (map.mapLocation ⟨start, stop⟩).start (map.mapLocation ⟨start, stop⟩).stop =
          some content) ∧
      ∀ root cloned : Node Shape, root.ValidIn (size oldSource) → map.cloneTree root = some cloned →
        (root.SiblingsInOrder → cloned.SiblingsInOrder) ∧
          (root.SiblingsApart → cloned.SiblingsApart) ∧
          (root.Contained → (cloned.Contained ↔ root.NoneEscapes map ∧
            ∀ child ∈ locations root.children,
              root.location.start ≤ (map.mapLocation child).start)) := by
  have admitted := try_new_admitted accepted
  refine ⟨?_, ?_, ?_, ?_, ?_⟩
  · intro bias earlier later order inside
    rw [map_position_image admitted room bias (Nat.le_trans order inside),
      map_position_image admitted room bias inside]
    exact image_mono bias admitted.aligned (Nat.zero_le _) order
  · intro bias position inside
    rw [map_position_image admitted room bias inside]
    exact ⟨image_inside bias admitted.aligned (Nat.zero_le _) inside,
      image_boundary bias admitted.aligned (Nat.zero_le _)⟩
  · intro position inside
    rw [map_position_image admitted room .left inside, map_position_image admitted room .right inside]
    exact image_left_right admitted.aligned position
  · intro start stop content found untouched
    have order := (slice_ordered _ _ _ _ found).1
    obtain ⟨boundary, -, inside⟩ := slice_boundaries found
    obtain ⟨first, last⟩ :=
      @map_location_parts oldSource newSource map admitted room ⟨start, stop⟩ ⟨order, inside⟩
    rw [first, last]
    rcases Nat.eq_or_lt_of_le order with rfl | wide
    · rw [Nat.max_eq_right (image_left_right admitted.aligned start)]
      have empty := (char_boundary_slice oldSource start).mp boundary
      obtain rfl := Option.some.inj (found.symm.trans empty)
      exact (char_boundary_slice _ _).mp
        (image_boundary .right admitted.aligned (Nat.zero_le _) boundary)
    · have mapped := image_span admitted.aligned (Nat.zero_le _) wide found untouched
      have forward := (slice_ordered _ _ _ _ mapped).1
      rw [Nat.max_eq_left forward]
      exact mapped
  · intro root cloned valid copied
    obtain ⟨ordered, apart⟩ := cloned_siblings admitted room valid copied
    exact ⟨ordered, apart, fun contained => cloned_contained admitted room valid contained copied⟩

section Plain

/-! A lexer that reads a scalar at a time and calls every region code. On the sources here the
Perl lexer's tokens agree across the edit in the same way. -/

inductive PlainKind where
  | scalar
  | blank
  | eof
  deriving DecidableEq

def plainTokens : Nat → List Char → List (LexToken PlainKind)
  | position, [] => [⟨.eof, [], position, position⟩]
  | position, scalar :: rest =>
    ⟨if isWhitespace scalar then .blank else .scalar, [scalar], position,
      position + scalar.utf8Size⟩ :: plainTokens (position + scalar.utf8Size) rest

def plainFrontend : Frontend PlainKind where
  build := fun _ => ⟨fun _ _ => .proven .code⟩
  tokens := plainTokens 0
  isRecoveryToken := fun _ => false
  isBlank := fun kind => decide (kind = .blank)
  isEof := fun kind => decide (kind = .eof)

/-- A program whose statement is a forward declaration: the empty block stands at the semicolon, its
end. -/
def forwardDeclaration (block declaration program : SourceLocation) : Node Unit :=
  .mk () [] none program [.mk () [] none declaration [.mk () [] none block []]]

def spaceBeforeSemicolon : WhitespaceEditMap := ⟨[⟨6, 6, 6, 7, 1⟩]⟩

theorem space_admitted : WhitespaceEditMap.tryNew plainFrontend ['s', 'u', 'b', ' ', 'é', ';']
    ['s', 'u', 'b', ' ', 'é', ' ', ';'] [⟨6, 6, 7⟩] = some spaceBeforeSemicolon := by
  decide +kernel

/-- A space before the semicolon takes the empty block with it and leaves the declaration's end. A
position inside the name goes to no boundary. -/
theorem empty_block_leaves_declaration :
    ∃ map, WhitespaceEditMap.tryNew plainFrontend ['s', 'u', 'b', ' ', 'é', ';']
        ['s', 'u', 'b', ' ', 'é', ' ', ';'] [⟨6, 6, 7⟩] = some map ∧
      (forwardDeclaration ⟨6, 6⟩ ⟨0, 6⟩ ⟨0, 7⟩).Contained ∧
      (∃ cloned, map.cloneTree (forwardDeclaration ⟨6, 6⟩ ⟨0, 6⟩ ⟨0, 7⟩) = some cloned ∧
        ¬ cloned.Contained) ∧
      isCharBoundary ['s', 'u', 'b', ' ', 'é', ' ', ';'] (map.mapPosition 5 .left) = false := by
  refine ⟨spaceBeforeSemicolon, space_admitted, ?_, ?_, by decide⟩
  · simp [forwardDeclaration, Node.Contained, Node.Each, EachOf, locations, Node.location,
      SourceLocation.Contains]
  · refine ⟨forwardDeclaration ⟨7, 7⟩ ⟨0, 6⟩ ⟨0, 8⟩, rfl, ?_⟩
    simp [forwardDeclaration, Node.Contained, Node.Each, EachOf, locations, Node.location,
      SourceLocation.Contains]

/-- The name of the declaration keeps its text. -/
theorem name_keeps_text :
    slice ['s', 'u', 'b', ' ', 'é', ' ', ';'] (spaceBeforeSemicolon.mapLocation ⟨4, 6⟩).start
      (spaceBeforeSemicolon.mapLocation ⟨4, 6⟩).stop = some ['é'] := by
  obtain ⟨-, -, -, span, -⟩ := @whitespace_edits_mapped PlainKind Unit _ plainFrontend
    ['s', 'u', 'b', ' ', 'é', ';'] ['s', 'u', 'b', ' ', 'é', ' ', ';'] [⟨6, 6, 7⟩]
    spaceBeforeSemicolon (by decide) space_admitted
  refine span 4 6 ['é'] (by decide) fun piece among => ?_
  obtain rfl := mem_singleton.mp among
  exact ⟨fun _ => .inr (Nat.le_refl _), fun _ _ => .inr (Nat.le_refl _)⟩

end Plain

end PerlLsp.WhitespaceGeometry
