import Mathlib.Algebra.Ring.Int.Defs
import Mathlib.Data.Nat.Bitwise

/-! The codec of debug_adapter/var_ref.rs in perl-dap: references to scopes, evaluation
results and children, each in a band of one i32. -/
namespace PerlLsp.VarRef
open Nat

@[ext] structure I32 where
  toInt : Int
  lower : -2147483648 ≤ toInt
  upper : toInt ≤ 2147483647
  deriving DecidableEq

def I32.saturatingAdd (left right : I32) : I32 :=
  ⟨max (-2147483648) (min (left.toInt + right.toInt) 2147483647), by omega, by omega⟩

inductive ScopeKind where
  | locals | package | globals | arguments
  deriving DecidableEq

namespace ScopeKind

def discriminant : ScopeKind → Int
  | locals => 1
  | package => 2
  | globals => 3
  | arguments => 4

def tryFrom (value : Int) : Option ScopeKind :=
  if value = 1 then some locals
  else if value = 2 then some package
  else if value = 3 then some globals
  else if value = 4 then some arguments
  else none

variable {counter : I32} (kind : ScopeKind)

theorem discriminant_bounds : 1 ≤ kind.discriminant ∧ kind.discriminant ≤ 4 := by
  cases kind with
  | locals => decide
  | package => decide
  | globals => decide
  | arguments => decide

theorem try_from_discriminant : tryFrom kind.discriminant = some kind := by
  cases kind with
  | locals => rfl
  | package => rfl
  | globals => rfl
  | arguments => rfl

end ScopeKind

inductive VariableReference where
  | scope (frameId : I32) (kind : ScopeKind)
  | evalResult (counter : I32)
  | child (parent : I32) (index : Fin (2 ^ 32))
  deriving DecidableEq

def scopeFrameIdMax : Int := 99999
def scopeMin : Int := 1
def scopeMax : Int := 999999
def evalBase : I32 := ⟨1000000, by decide, by decide⟩
def evalMax : Int := 1999999999
def childBase : I32 := ⟨2000000000, by decide, by decide⟩

@[simp] theorem eval_base : evalBase.toInt = 1000000 := rfl
@[simp] theorem child_base : childBase.toInt = 2000000000 := rfl

def indexTruncated (index : Fin (2 ^ 32)) : I32 where
  toInt := (index.val &&& 65535 : Nat)
  lower := by omega
  upper := by
    have cut : index.val &&& 65535 ≤ 65535 := Nat.and_le_right
    omega

def parentShifted (parent : I32) : I32 where
  toInt := max 0 (min parent.toInt (2147483647 / 65536)) * 65536
  lower := by omega
  upper := by omega

namespace VariableReference
variable {reference : VariableReference} {frameId : I32}

theorem scope_wire_bounds (kind : ScopeKind)
    (inside : ¬ (frameId.toInt < 0 ∨ scopeFrameIdMax < frameId.toInt)) :
    1 ≤ frameId.toInt * 10 + kind.discriminant ∧ frameId.toInt * 10 + kind.discriminant ≤ 999994 := by
  have bounds := kind.discriminant_bounds
  rw [scopeFrameIdMax] at inside
  omega

def encode : VariableReference → Option I32
  | scope frameId kind =>
    if inside : frameId.toInt < 0 ∨ scopeFrameIdMax < frameId.toInt then none
    else
      some ⟨frameId.toInt * 10 + kind.discriminant,
        by have bounds := scope_wire_bounds kind inside; omega,
        by have bounds := scope_wire_bounds kind inside; omega⟩
  | evalResult counter =>
    if counter.toInt < 0 then none
    else
      let wire := evalBase.saturatingAdd counter
      if evalMax < wire.toInt then none else some wire
  | child parent index =>
    if parent.toInt < 0 then none
    else
      let packed := (parentShifted parent).saturatingAdd (indexTruncated index)
      some (childBase.saturatingAdd packed)

theorem packed_parent_bound {raw : I32} : (raw.toInt - childBase.toInt).toNat >>> 16 ≤ 2147483647 := by
  have upper := raw.upper
  have shrinks := shiftRight_le (raw.toInt - childBase.toInt).toNat 16
  rw [child_base] at shrinks ⊢
  omega

theorem packed_index_bound (packed : Nat) : packed &&& 65535 < 2 ^ 32 :=
  Nat.lt_of_le_of_lt Nat.and_le_right (by decide)

def decode (raw : I32) : Option VariableReference :=
  if positive : raw.toInt ≤ 0 then none
  else if childBase.toInt ≤ raw.toInt then
    let packed := (raw.toInt - childBase.toInt).toNat
    some (child ⟨(packed >>> 16 : Nat), by omega, Int.ofNat_le.mpr packed_parent_bound⟩
      ⟨packed &&& 65535, packed_index_bound packed⟩)
  else if inBand : evalBase.toInt ≤ raw.toInt ∧ raw.toInt ≤ evalMax then
    some (evalResult ⟨raw.toInt - evalBase.toInt,
      by omega, by have upper := raw.upper; rw [eval_base]; omega⟩)
  else if scopeMin ≤ raw.toInt ∧ raw.toInt ≤ scopeMax then
    (ScopeKind.tryFrom (raw.toInt % 10)).map fun kind =>
      scope ⟨raw.toInt / 10, by omega, by have upper := raw.upper; omega⟩ kind
  else none

def InBand : VariableReference → I32 → Prop
  | scope _ _, wire => scopeMin ≤ wire.toInt ∧ wire.toInt ≤ scopeMax
  | evalResult _, wire => evalBase.toInt ≤ wire.toInt ∧ wire.toInt ≤ evalMax
  | child _ _, wire => childBase.toInt ≤ wire.toInt

def Admissible : VariableReference → Prop
  | child parent index => (∃ reference, encode reference = some parent) ∧ index.val < 65536
  | scope _ _ => True
  | evalResult _ => True

def ParentFits : VariableReference → Prop
  | child parent _ => parent.toInt ≤ 2250
  | scope _ _ => True
  | evalResult _ => True

variable {wire : I32}

theorem encode_scope {kind : ScopeKind} (encoded : encode (scope frameId kind) = some wire) :
    0 ≤ frameId.toInt ∧ frameId.toInt ≤ 99999 ∧ wire.toInt = frameId.toInt * 10 + kind.discriminant := by
  rw [encode] at encoded
  split at encoded
  · cases encoded
  next inside =>
    cases encoded
    rw [scopeFrameIdMax] at inside
    exact ⟨by omega, by omega, rfl⟩

theorem encode_eval (encoded : encode (evalResult counter) = some wire) :
    0 ≤ counter.toInt ∧ wire.toInt = 1000000 + counter.toInt ∧ wire.toInt ≤ 1999999999 := by
  rw [encode] at encoded
  split at encoded
  · cases encoded
  next natural =>
    have value : (evalBase.saturatingAdd counter).toInt =
        max (-2147483648) (min (1000000 + counter.toInt) 2147483647) := rfl
    dsimp only at encoded
    split at encoded
    · cases encoded
    next within =>
      cases encoded
      rw [evalMax] at within
      omega

variable {parent : I32} {index : Fin (2 ^ 32)}

theorem encode_child (short : index.val < 65536) (encoded : encode (child parent index) = some wire) :
    0 ≤ parent.toInt ∧
      wire.toInt = min (2000000000 + min parent.toInt 32767 * 65536 + index.val) 2147483647 := by
  have cut : index.val &&& 65535 = index.val := by
    rw [show 65535 = 2 ^ 16 - 1 from rfl, and_two_pow_sub_one_eq_mod]
    exact mod_eq_of_lt short
  rw [encode] at encoded
  split at encoded
  · cases encoded
  next natural =>
    cases encoded
    dsimp only [I32.saturatingAdd, parentShifted, indexTruncated, childBase]
    omega

/-- Every wire value lies in the band of its variant. -/
theorem encode_in_band (admissible : reference.Admissible) (encoded : reference.encode = some wire) :
    reference.InBand wire := by
  cases reference with
  | scope frameId kind =>
    have := encode_scope encoded
    have := kind.discriminant_bounds
    rw [InBand, scopeMin, scopeMax]
    omega
  | evalResult counter =>
    have := encode_eval encoded
    rw [InBand, eval_base, evalMax]
    omega
  | child parent index =>
    have := encode_child admissible.2 encoded
    rw [InBand, child_base]
    omega

/-- Between the children of parents that fit and those that do not lies a gap: the values from 2245
to 2250. -/
theorem parent_gap (produced : ∃ reference, encode reference = some parent)
    (low : parent.toInt ≤ 2250) : parent.toInt ≤ 2244 := by
  obtain ⟨reference, encoded⟩ := produced
  cases reference with
  | scope frameId kind =>
    have := encode_scope encoded
    have := kind.discriminant_bounds
    omega
  | evalResult counter =>
    have := encode_eval encoded
    omega
  | child grandparent index =>
    rw [encode] at encoded
    split at encoded
    · cases encoded
    · cases encoded
      dsimp only [I32.saturatingAdd, parentShifted, indexTruncated, child_base] at low
      omega

theorem decode_scope {kind : ScopeKind} (encoded : encode (scope frameId kind) = some wire) :
    decode wire = some (scope frameId kind) := by
  have value := encode_scope encoded
  have bounds := kind.discriminant_bounds
  have last : wire.toInt % 10 = kind.discriminant := by omega
  have frame : wire.toInt / 10 = frameId.toInt := by omega
  rw [decode, dif_neg (by omega), if_neg (by rw [child_base]; omega),
    dif_neg (by rw [eval_base]; omega), if_pos (by rw [scopeMin, scopeMax]; omega), last,
    ScopeKind.try_from_discriminant]
  exact congrArg (fun frame => some (scope frame kind)) (I32.ext frame)

theorem decode_eval (encoded : encode (evalResult counter) = some wire) :
    decode wire = some (evalResult counter) := by
  have value := encode_eval encoded
  have back : wire.toInt - evalBase.toInt = counter.toInt := by
    rw [eval_base]
    omega
  rw [decode, dif_neg (by omega), if_neg (by rw [child_base]; omega), dif_pos (by rw [evalMax]; omega)]
  exact congrArg (fun counter => some (evalResult counter)) (I32.ext back)

theorem decode_child {parent index : Nat} (short : index < 65536)
    (value : wire.toInt = 2000000000 + parent * 65536 + index) : ∃ decoded : I32, decoded.toInt = parent ∧
      ∃ cut : Fin (2 ^ 32), cut.val = index ∧ decode wire = some (child decoded cut) := by
  have packed : (wire.toInt - childBase.toInt).toNat = parent * 65536 + index := by
    rw [child_base]
    omega
  have high : (parent * 65536 + index) >>> 16 = parent := by
    omega
  have low : (parent * 65536 + index) &&& 65535 = index := by
    rw [show 65535 = 2 ^ 16 - 1 from rfl, and_two_pow_sub_one_eq_mod]
    omega
  rw [decode, dif_neg (by omega), if_pos (by rw [child_base]; omega)]
  refine ⟨_, ?_, _, ?_, rfl⟩
  · dsimp only
    rw [packed, high]
  · dsimp only
    rw [packed, low]

/-- A child below a parent that fits takes its own wire value and leaves the last one free. -/
theorem fitting_child (admissible : (child parent index).Admissible) (fits : parent.toInt ≤ 2250)
    (encoded : encode (child parent index) = some wire) :
    decode wire = some (child parent index) ∧ wire.toInt < 2147483647 := by
  have value := encode_child admissible.2 encoded
  have low := parent_gap admissible.1 fits
  have short := admissible.2
  have plain : wire.toInt = 2000000000 + (parent.toInt.toNat : Int) * 65536 + index.val := by
    omega
  obtain ⟨decoded, same, cut, also, back⟩ := decode_child short plain
  constructor
  · rw [back]
    congr 2
    · exact I32.ext (by omega)
    · exact Fin.ext also
  · omega

/-- A child below any other parent takes the last wire value, which decodes to something else. -/
theorem saturated_child (short : index.val < 65536) (large : 2250 < parent.toInt)
    (encoded : encode (child parent index) = some wire) :
    wire.toInt = 2147483647 ∧ decode wire ≠ some (child parent index) := by
  have value := encode_child short encoded
  have last : wire.toInt = 2147483647 := by omega
  have bits : wire.toInt = 2000000000 + (2250 : Nat) * 65536 + (27647 : Nat) := by
    rw [last]
    rfl
  obtain ⟨decoded, same, cut, also, back⟩ := decode_child (by decide) bits
  refine ⟨last, fun returned => ?_⟩
  rw [back] at returned
  cases returned
  omega

theorem fitting_decodes (admissible : reference.Admissible) (fits : reference.ParentFits)
    (encoded : reference.encode = some wire) : decode wire = some reference ∧ wire.toInt < 2147483647 := by
  cases reference with
  | scope frameId kind =>
    have value := encode_scope encoded
    have bounds := kind.discriminant_bounds
    exact ⟨decode_scope encoded, by omega⟩
  | evalResult counter =>
    have value := encode_eval encoded
    exact ⟨decode_eval encoded, by omega⟩
  | child parent index => exact fitting_child admissible fits encoded

/-- A reference is the only one of its wire value and is decoded from it exactly when its parent, if
a child, leaves room; its wire value is in its band in any case. -/
theorem codec_iff (reference : VariableReference) (wire : I32) (admissible : reference.Admissible)
    (encoded : reference.encode = some wire) :
    reference.InBand wire ∧
      ((decode wire = some reference ∧
        ∀ other : VariableReference, other.Admissible → other.encode = some wire →
          other = reference) ↔ reference.ParentFits) := by
  refine ⟨encode_in_band admissible encoded, ?_, ?_⟩
  · rintro ⟨decoded, _⟩
    cases reference with
    | scope frameId kind => trivial
    | evalResult counter => trivial
    | child parent index =>
      apply Int.not_lt.mp
      intro large
      exact (saturated_child admissible.2 large encoded).2 decoded
  · intro fits
    obtain ⟨decoded, below⟩ := fitting_decodes admissible fits encoded
    refine ⟨decoded, fun other alsoAdmissible same => ?_⟩
    have otherFits : other.ParentFits := by
      cases other with
      | scope frameId kind => trivial
      | evalResult counter => trivial
      | child parent index =>
        apply Int.not_lt.mp
        intro large
        have last := (saturated_child alsoAdmissible.2 large same).1
        omega
    have back := (fitting_decodes alsoAdmissible otherFits same).1
    exact Option.some.inj (back.symm.trans decoded)

def fourthLocal : VariableReference := child ⟨51, by decide, by decide⟩ 3

theorem codec_iff_fourth_local :
    fourthLocal.InBand ⟨2003342339, by decide, by decide⟩ ∧
      ((decode ⟨2003342339, by decide, by decide⟩ = some fourthLocal ∧
        ∀ other : VariableReference, other.Admissible →
          other.encode = some ⟨2003342339, by decide, by decide⟩ → other = fourthLocal) ↔
        fourthLocal.ParentFits) :=
  codec_iff fourthLocal ⟨2003342339, by decide, by decide⟩
    ⟨⟨scope ⟨5, by decide, by decide⟩ .locals, by decide⟩, by decide⟩ (by decide)

def childOfLocals (index : Fin (2 ^ 32)) : VariableReference :=
  child ⟨3001, by decide, by decide⟩ index

theorem children_collide :
    ¬ ∀ left right : VariableReference, ∀ wire : I32, left.Admissible → right.Admissible →
      left.encode = some wire → right.encode = some wire → left = right := by
  intro injective
  have admissible (index : Fin (2 ^ 32)) (short : index.val < 65536) :
      (childOfLocals index).Admissible :=
    ⟨⟨scope ⟨300, by decide, by decide⟩ .locals, by decide⟩, short⟩
  have same := injective (childOfLocals 0) (childOfLocals 1) ⟨2147483647, by decide, by decide⟩
    (admissible 0 (by decide)) (admissible 1 (by decide)) (by decide) (by decide)
  exact absurd same (by decide)

end VariableReference

end PerlLsp.VarRef
