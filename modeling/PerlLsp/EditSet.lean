import PerlLsp.Splice
import Mathlib.Algebra.Order.Group.Int
import Mathlib.Tactic.Abel

/-! Edits and sets of edits of perl-parser-core/src/syntax/edit.rs. All edits of a set
are in the coordinates of the old source; a position is handed from one edit to the
next and moves on the way. Offsets fit into `isize`, lines and columns into `i32`. -/
namespace PerlLsp.EditSet

structure Position where
  byte : Nat
  line : Nat
  column : Nat
  deriving DecidableEq

structure Range where
  start : Position
  stop : Position
  deriving DecidableEq

def Range.len (range : Range) : Nat := range.stop.byte - range.start.byte

structure Edit where
  startByte : Nat
  oldEndByte : Nat
  newEndByte : Nat
  startPosition : Position
  oldEndPosition : Position
  newEndPosition : Position
  deriving DecidableEq

namespace Edit
variable (edit : Edit)

def byteShift : Int := edit.newEndByte - edit.oldEndByte

def lineShift : Int := edit.newEndPosition.line - edit.oldEndPosition.line

def applyToPosition (pos : Position) : Option Position :=
  if pos.byte < edit.startByte then some pos
  else if edit.oldEndByte ≤ pos.byte then
    some
      { byte := (pos.byte + edit.byteShift).toNat
        line := (pos.line + edit.lineShift).toNat
        column :=
          if pos.line = edit.oldEndPosition.line then
            (pos.column + ((edit.newEndPosition.column : Int) - edit.oldEndPosition.column)).toNat
          else pos.column }
  else none

def applyToRange (range : Range) : Option Range := do
  let newStart ← edit.applyToPosition range.start
  let newEnd ← edit.applyToPosition range.stop
  return ⟨newStart, newEnd⟩

structure WellFormed (edit : Edit) : Prop where
  old : edit.startByte ≤ edit.oldEndByte
  new : edit.startByte ≤ edit.newEndByte

def Apart (left right : Edit) : Prop :=
  left.oldEndByte ≤ right.startByte ∨ right.oldEndByte ≤ left.startByte

def Avoids (edit : Edit) (byte : Nat) : Prop :=
  byte < edit.startByte ∨ edit.startByte < byte ∧ edit.oldEndByte ≤ byte

def shiftOf (edit : Edit) (byte : Int) : Option Int :=
  if byte < edit.startByte then some 0
  else if edit.oldEndByte ≤ byte then some edit.byteShift
  else none

end Edit

/-- `add`: the edits are kept in the order of their starts. -/
def add : List Edit → Edit → List Edit
  | [], edit => [edit]
  | first :: rest, edit =>
    if edit.startByte < first.startByte then edit :: first :: rest else first :: add rest edit

def applyToPosition : List Edit → Position → Option Position
  | [], pos => some pos
  | edit :: rest, pos => (edit.applyToPosition pos).bind (applyToPosition rest)

def applyToRange : List Edit → Range → Option Range
  | [], range => some range
  | edit :: rest, range => (edit.applyToRange range).bind (applyToRange rest)

def byteShiftAt (edits : List Edit) (byte : Nat) : Int :=
  ((edits.filter fun edit => edit.oldEndByte ≤ byte).map Edit.byteShift).sum

def MapsPosition (edits : List Edit) (pos : Position) : Prop :=
  ∃ moved, applyToPosition edits pos = some moved ∧
    (moved.byte : Int) = pos.byte + byteShiftAt edits pos.byte

def KeepsLength (edits : List Edit) (range : Range) : Prop :=
  ∃ moved, applyToRange edits range = some moved ∧ moved.len = range.len

def Untouched (edits : List Edit) (byte : Nat) : Prop := ∀ edit ∈ edits, edit.Avoids byte

def UntouchedRange (edits : List Edit) (range : Range) : Prop :=
  ∀ edit ∈ edits, edit.Avoids range.start.byte ∧ edit.Avoids range.stop.byte ∧
    (range.start.byte < edit.startByte ↔ range.stop.byte < edit.startByte)

/-- Each edit moves the offset that the edits before it have led to by as much as the
old offset. -/
def InStep (edits : List Edit) (byte : Nat) : Prop :=
  ∀ before edit after, edits = before ++ edit :: after →
    edit.shiftOf (byte + byteShiftAt before byte) = edit.shiftOf byte

theorem byteShiftAt_append (left right : List Edit) (byte : Nat) :
    byteShiftAt (left ++ right) byte = byteShiftAt left byte + byteShiftAt right byte := by
  simp [byteShiftAt]

variable (edits : List Edit) (range : Range) (edit : Edit)

theorem shiftOf_avoided (byte : Nat) (wellFormed : edit.WellFormed) (avoids : edit.Avoids byte) :
    edit.shiftOf byte = some (byteShiftAt [edit] byte) := by
  have ordered := wellFormed.old
  rcases avoids with before | ⟨started, ended⟩
  · have notEnded : ¬ edit.oldEndByte ≤ byte := by omega
    simp [Edit.shiftOf, byteShiftAt, before, notEnded]
  · have notBefore : ¬ byte < edit.startByte := by omega
    simp [Edit.shiftOf, byteShiftAt, notBefore, ended]

variable (pos : Position)

theorem applyToPosition_byte : (edit.applyToPosition pos).map (fun moved => (moved.byte : Int)) =
      (edit.shiftOf pos.byte).map (fun shift => (pos.byte : Int) + shift) := by
  by_cases before : pos.byte < edit.startByte
  · simp [Edit.applyToPosition, Edit.shiftOf, before]
  by_cases ended : edit.oldEndByte ≤ pos.byte
  · have remains : 0 ≤ (pos.byte : Int) + edit.byteShift := by
      unfold Edit.byteShift
      omega
    simp [Edit.applyToPosition, Edit.shiftOf, before, remains]
  · simp [Edit.applyToPosition, Edit.shiftOf, ended]

theorem applyToPosition_moves (shift : Int) (known : edit.shiftOf pos.byte = some shift) :
    ∃ moved, edit.applyToPosition pos = some moved ∧ (moved.byte : Int) = pos.byte + shift := by
  have byte := applyToPosition_byte edit pos
  rw [known] at byte
  exact Option.map_eq_some_iff.mp byte

theorem shiftOf_of_applied (moved : Position) (applied : edit.applyToPosition pos = some moved) :
    edit.shiftOf pos.byte = some ((moved.byte : Int) - pos.byte) := by
  have byte := applyToPosition_byte edit pos
  rw [applied, Option.map_some] at byte
  obtain ⟨shift, known, sum⟩ := Option.map_eq_some_iff.mp byte.symm
  rw [known, ← sum, add_sub_cancel_left]

theorem applyToPosition_append (left right : List Edit) (pos : Position) :
    applyToPosition (left ++ right) pos = (applyToPosition left pos).bind (applyToPosition right) := by
  induction left generalizing pos with
  | nil => rfl
  | cons edit rest ih =>
    simp only [List.cons_append, applyToPosition]
    cases edit.applyToPosition pos with
    | none => rfl
    | some moved => exact ih moved

/-- The edits left to apply, behind those that have brought the position where it is. -/
theorem maps_behind (before edits : List Edit) (old : Nat) (pos : Position)
    (wellFormed : ∀ edit ∈ edits, edit.WellFormed) (untouched : Untouched edits old)
    (reached : (pos.byte : Int) = old + byteShiftAt before old)
    (inStep : ∀ front edit after, edits = front ++ edit :: after →
      edit.shiftOf (old + byteShiftAt (before ++ front) old) = edit.shiftOf old) :
    ∃ moved, applyToPosition edits pos = some moved ∧
      (moved.byte : Int) = old + byteShiftAt (before ++ edits) old := by
  induction edits generalizing before pos with
  | nil => exact ⟨pos, rfl, by rwa [List.append_nil]⟩
  | cons edit rest ih =>
    obtain ⟨shaped, wellFormed⟩ := List.forall_mem_cons.mp wellFormed
    obtain ⟨avoided, untouched⟩ := List.forall_mem_cons.mp untouched
    have shift := inStep [] edit rest rfl
    rw [List.append_nil, ← reached, shiftOf_avoided edit old shaped avoided] at shift
    obtain ⟨next, applied, byte⟩ := applyToPosition_moves edit pos _ shift
    have nextReached : (next.byte : Int) = old + byteShiftAt (before ++ [edit]) old := by
      rw [byte, reached, byteShiftAt_append, add_assoc]
    obtain ⟨moved, done, final⟩ := ih (before ++ [edit]) next wellFormed untouched nextReached
      (fun front later after split => by
        have same := inStep (edit :: front) later after (by rw [split]; rfl)
        rwa [List.append_assoc, List.singleton_append])
    refine ⟨moved, ?_, by rwa [List.append_assoc] at final⟩
    simp only [applyToPosition, applied]
    exact done

section
variable (wellFormed : ∀ edit ∈ edits, edit.WellFormed) (untouched : Untouched edits pos.byte)
include edits pos wellFormed untouched

theorem maps_of_inStep (inStep : InStep edits pos.byte) : MapsPosition edits pos :=
  maps_behind [] edits pos.byte pos wellFormed untouched (by simp [byteShiftAt]) inStep

theorem inStep_of_maps (maps : ∀ part, part <+: edits → MapsPosition part pos) : InStep edits pos.byte := by
  rintro before edit after rfl
  obtain ⟨moved, applied, byte⟩ := maps before (List.prefix_append _ _)
  obtain ⟨next, nextApplied, nextByte⟩ := maps (before ++ [edit]) ⟨after, by simp⟩
  have among : edit ∈ before ++ edit :: after := by simp
  rw [applyToPosition_append, applied] at nextApplied
  simp only [applyToPosition, Option.bind_fun_some] at nextApplied
  rw [← byte, shiftOf_of_applied edit moved next nextApplied,
    shiftOf_avoided edit pos.byte (wellFormed edit among) (untouched edit among), nextByte,
    byteShiftAt_append]
  congr 1
  omega

end

theorem applyToRange_ends :
    applyToRange edits range = (applyToPosition edits range.start).bind fun newStart =>
        (applyToPosition edits range.stop).map fun newStop => ⟨newStart, newStop⟩ := by
  induction edits generalizing range with
  | nil => rfl
  | cons edit rest ih =>
    simp only [applyToRange, applyToPosition, Edit.applyToRange]
    cases edit.applyToPosition range.start with
    | none => rfl
    | some newStart =>
      cases edit.applyToPosition range.stop with
      | none => simp
      | some newStop => exact ih ⟨newStart, newStop⟩

/-- Both ends of a range that no edit touches move alike. -/
theorem keeps_length_of_inStep (wellFormed : ∀ edit ∈ edits, edit.WellFormed)
    (untouched : UntouchedRange edits range) (startInStep : InStep edits range.start.byte)
    (stopInStep : InStep edits range.stop.byte) : KeepsLength edits range := by
  obtain ⟨newStart, startApplied, startByte⟩ := maps_of_inStep edits range.start wellFormed
    (fun edit among => (untouched edit among).1) startInStep
  obtain ⟨newStop, stopApplied, stopByte⟩ := maps_of_inStep edits range.stop wellFormed
    (fun edit among => (untouched edit among).2.1) stopInStep
  have sameShift : byteShiftAt edits range.start.byte = byteShiftAt edits range.stop.byte := by
    unfold byteShiftAt
    congr 2
    refine List.filter_congr fun edit among => ?_
    obtain ⟨startAvoids, stopAvoids, alike⟩ := untouched edit among
    have ordered := (wellFormed edit among).old
    unfold Edit.Avoids at startAvoids stopAvoids
    rw [decide_eq_decide]
    omega
  refine ⟨⟨newStart, newStop⟩, by rw [applyToRange_ends, startApplied, stopApplied]; rfl, ?_⟩
  show newStop.byte - newStart.byte = range.stop.byte - range.start.byte
  omega

section Texts
variable {Scalar : Type*}

def Edit.patch (text : Edit → List Scalar) (edit : Edit) : Splice.Patch Scalar :=
  ⟨edit.startByte, edit.oldEndByte, text edit⟩

end Texts

def collect (given : List Edit) : List Edit := given.foldl add []

theorem add_perm : (add edits edit).Perm (edit :: edits) := by
  induction edits with
  | nil => exact List.Perm.refl _
  | cons first rest ih =>
    unfold add
    split
    · exact List.Perm.refl _
    · exact (ih.cons first).trans (List.Perm.swap edit first rest)

theorem collect_perm (given : List Edit) : (collect given).Perm given := by
  have folded : ∀ edits : List Edit, (given.foldl add edits).Perm (given ++ edits) := by
    induction given with
    | nil => exact fun edits => List.Perm.refl edits
    | cons edit rest ih =>
      intro edits
      have next := ((add_perm edits edit).append_left rest).trans List.perm_middle
      exact (ih (add edits edit)).trans next
  have all := folded []
  rwa [List.append_nil] at all

/-- In whatever order the edits are added: the set, and each of its leading parts, maps an untouched
position exactly when it stays in step, and a range whose ends do keeps its length. -/
theorem maps_iff_inStep (given : List Edit) (wellFormed : ∀ edit ∈ given, edit.WellFormed) :
    (∀ pos : Position, Untouched given pos.byte →
      ((∀ part, part <+: collect given → MapsPosition part pos) ↔
        InStep (collect given) pos.byte)) ∧
    ∀ range : Range, UntouchedRange given range → InStep (collect given) range.start.byte →
      InStep (collect given) range.stop.byte → KeepsLength (collect given) range := by
  have among : ∀ edit, edit ∈ collect given ↔ edit ∈ given := fun edit => (collect_perm given).mem_iff
  have shaped : ∀ edit ∈ collect given, edit.WellFormed := fun edit held =>
    wellFormed edit ((among edit).mp held)
  constructor
  · intro pos untouched
    have avoided : Untouched (collect given) pos.byte := fun edit held =>
      untouched edit ((among edit).mp held)
    constructor
    · exact inStep_of_maps _ pos shaped avoided
    · rintro inStep part ⟨rest, split⟩
      rw [← split] at shaped avoided inStep
      refine maps_of_inStep part pos (fun edit held => shaped edit (by simp [held]))
        (fun edit held => avoided edit (by simp [held])) ?_
      rintro before edit after rfl
      exact inStep before edit (after ++ rest) (by simp)
  · intro range untouched startInStep stopInStep
    exact keeps_length_of_inStep _ range shaped (fun edit held => untouched edit ((among edit).mp held))
      startInStep stopInStep

/-- A hundred bytes put in at 10. -/
def growing : Edit := ⟨10, 10, 110, ⟨10, 1, 10⟩, ⟨10, 1, 10⟩, ⟨110, 1, 110⟩⟩

/-- Five bytes at 50 replaced by one. -/
def shrinking : Edit := ⟨50, 55, 51, ⟨50, 3, 0⟩, ⟨55, 3, 5⟩, ⟨51, 3, 1⟩⟩

theorem both_wellFormed : ∀ edit ∈ [growing, shrinking], edit.WellFormed := by
  simp only [List.forall_mem_cons]
  exact ⟨⟨by decide, by decide⟩, ⟨by decide, by decide⟩, nofun⟩

def afterBoth : Position := ⟨200, 9, 4⟩

theorem afterBoth_inStep : InStep (collect [growing, shrinking]) afterBoth.byte := by
  intro before edit after split
  rw [show collect [growing, shrinking] = [growing, shrinking] by decide] at split
  match before, split with
  | [], split => obtain ⟨rfl, -⟩ := List.cons.inj split; decide
  | [_], split =>
    obtain ⟨rfl, tail⟩ := List.cons.inj split
    obtain ⟨rfl, -⟩ := List.cons.inj tail
    decide
  | _ :: _ :: before, split => simp at split

theorem maps_iff_inStep_behind : MapsPosition (collect [growing, shrinking]) afterBoth :=
  ((maps_iff_inStep [growing, shrinking] both_wellFormed).1 afterBoth
      (by simp [Untouched, Edit.Avoids, growing, shrinking, afterBoth])).mpr
    afterBoth_inStep _ List.prefix_rfl

/-- Byte 20 lies between the two edits; moved by the first it lies behind the second. -/
theorem moved_across_later_edit :
    ¬ ∀ (given : List Edit) (pos : Position), (∀ edit ∈ given, edit.WellFormed) →
      given.Pairwise Edit.Apart → Untouched given pos.byte → MapsPosition (collect given) pos := by
  intro every
  obtain ⟨moved, applied, byte⟩ := every [growing, shrinking] ⟨20, 1, 20⟩ both_wellFormed
    (by simp [Edit.Apart, growing, shrinking])
    (by simp [Untouched, Edit.Avoids, growing, shrinking])
  have lands : applyToPosition (collect [growing, shrinking]) ⟨20, 1, 20⟩ = some ⟨116, 1, 120⟩ := by
    decide
  obtain rfl := Option.some.inj (lands.symm.trans applied)
  exact absurd byte (by decide)

end PerlLsp.EditSet
