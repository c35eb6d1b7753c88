import Mathlib.Algebra.Order.BigOperators.Group.List
import Mathlib.Algebra.Ring.Nat

/-! UTF-8 over plain lists. A text is a list of Unicode scalar values; its bytes are the encodings
of the scalars one after the other, in the forms of the standard's table of well-formed byte
sequences. Byte offsets into a text are related to scalars by sizes, so positions can be split
without decoding. -/
namespace PerlLsp.Utf8
open List UInt8 Option

def encode (text : List Char) : List UInt8 := text.flatMap String.utf8EncodeChar

def Valid (bytes : List UInt8) : Prop := ∃ text, encode text = bytes

variable (fuel : Nat) (bytes : List UInt8) (text : List Char) (scalar : Char)

@[simp] theorem encode_nil : encode [] = [] := rfl

@[simp] theorem encode_cons (rest : List Char) :
    encode (scalar :: rest) = String.utf8EncodeChar scalar ++ encode rest := rfl

@[simp] theorem encode_append (left right : List Char) :
    encode (left ++ right) = encode left ++ encode right := by
  simp [encode]

/-- One row for each lead byte class of the table of well-formed sequences. -/
inductive Form : List UInt8 → Prop where
  | one (a : UInt8) : a ≤ 0x7F → Form [a]
  | two (a b : UInt8) : 0xC2 ≤ a → a ≤ 0xDF → 0x80 ≤ b → b ≤ 0xBF → Form [a, b]
  | three (a b c : UInt8) : 0xE0 ≤ a → a ≤ 0xEF → 0x80 ≤ b → b ≤ 0xBF →
      (a = 0xE0 → 0xA0 ≤ b) → (a = 0xED → b ≤ 0x9F) → 0x80 ≤ c → c ≤ 0xBF → Form [a, b, c]
  | four (a b c d : UInt8) : 0xF0 ≤ a → a ≤ 0xF4 → 0x80 ≤ b → b ≤ 0xBF →
      (a = 0xF0 → 0x90 ≤ b) → (a = 0xF4 → b ≤ 0x8F) → 0x80 ≤ c → c ≤ 0xBF →
      0x80 ≤ d → d ≤ 0xBF → Form [a, b, c, d]

theorem scalar_range : scalar.val.toNat < 0xD800 ∨ 0xDFFF < scalar.val.toNat ∧ scalar.val.toNat < 0x110000 :=
  scalar.valid

theorem encoded_form : Form (String.utf8EncodeChar scalar) := by
  have range := scalar_range scalar
  unfold String.utf8EncodeChar
  generalize scalar.val.toNat = v at range
  simp only
  split
  · refine Form.one _ ?_
    rw [le_iff_toNat_le]
    simp
    omega
  split
  · refine Form.two _ _ ?_ ?_ ?_ ?_ <;>
      simp [le_iff_toNat_le] <;> omega
  split
  · refine Form.three _ _ _ ?_ ?_ ?_ ?_ ?_ ?_ ?_ ?_ <;>
      simp [le_iff_toNat_le, ← UInt8.toNat_inj] <;> omega
  · refine Form.four _ _ _ _ ?_ ?_ ?_ ?_ ?_ ?_ ?_ ?_ ?_ ?_ <;>
      simp [le_iff_toNat_le, ← UInt8.toNat_inj] <;> omega

theorem of_nat_value (v : Nat) (valid : v.isValidChar) : (Char.ofNat v).val.toNat = v := by
  rw [Char.ofNat, dif_pos valid]
  rfl

-- The scalar value each length class denotes.
def value2 (a b : UInt8) : Nat := (a.toNat - 0xC0) * 64 + (b.toNat - 0x80)

def value3 (a b c : UInt8) : Nat :=
  (a.toNat - 0xE0) * 4096 + (b.toNat - 0x80) * 64 + (c.toNat - 0x80)

def value4 (a b c d : UInt8) : Nat :=
  (a.toNat - 0xF0) * 262144 + (b.toNat - 0x80) * 4096 + (c.toNat - 0x80) * 64 + (d.toNat - 0x80)

def isContinuation (byte : UInt8) : Bool := 0x80 ≤ byte && byte ≤ 0xBF

theorem continuation_range (byte : UInt8) :
    isContinuation byte = true ↔ 0x80 ≤ byte.toNat ∧ byte.toNat ≤ 0xBF := by
  simp [isContinuation, le_iff_toNat_le]

theorem encode_value1 (a : UInt8) (ascii : a.toNat ≤ 0x7F) :
    String.utf8EncodeChar (Char.ofNat a.toNat) = [a] := by
  have valid : a.toNat.isValidChar := Or.inl (by omega)
  simp [String.utf8EncodeChar, of_nat_value _ valid, ascii]

theorem encode_value2 (a b : UInt8) (low : 0xC0 ≤ a.toNat) (high : a.toNat < 0xE0)
    (tail : isContinuation b = true) (least : 0x80 ≤ value2 a b) (valid : (value2 a b).isValidChar) :
    String.utf8EncodeChar (Char.ofNat (value2 a b)) = [a, b] := by
  rw [continuation_range] at tail
  rw [String.utf8EncodeChar, of_nat_value _ valid]
  unfold value2 at least ⊢
  rw [if_neg (by omega), if_pos (by omega)]
  simp [← UInt8.toNat_inj]
  omega

theorem encode_value3 (a b c : UInt8) (low : 0xE0 ≤ a.toNat) (high : a.toNat < 0xF0)
    (tailB : isContinuation b = true) (tailC : isContinuation c = true)
    (least : 0x800 ≤ value3 a b c) (valid : (value3 a b c).isValidChar) :
    String.utf8EncodeChar (Char.ofNat (value3 a b c)) = [a, b, c] := by
  rw [continuation_range] at tailB tailC
  rw [String.utf8EncodeChar, of_nat_value _ valid]
  unfold value3 at least ⊢
  rw [if_neg (by omega), if_neg (by omega), if_pos (by omega)]
  simp [← UInt8.toNat_inj]
  omega

theorem encode_value4 (a b c d : UInt8) (low : 0xF0 ≤ a.toNat) (high : a.toNat < 0xF8)
    (tailB : isContinuation b = true) (tailC : isContinuation c = true) (tailD : isContinuation d = true)
    (least : 0x10000 ≤ value4 a b c d) (valid : (value4 a b c d).isValidChar) :
    String.utf8EncodeChar (Char.ofNat (value4 a b c d)) = [a, b, c, d] := by
  rw [continuation_range] at tailB tailC tailD
  rw [String.utf8EncodeChar, of_nat_value _ valid]
  unfold value4 at least ⊢
  rw [if_neg (by omega), if_neg (by omega), if_neg (by omega)]
  simp [← UInt8.toNat_inj]
  omega

theorem form_encoded (form : Form bytes) : ∃ scalar, String.utf8EncodeChar scalar = bytes := by
  cases form with
  | one a high =>
    simp [le_iff_toNat_le] at high
    exact ⟨_, encode_value1 a high⟩
  | two a b low high lowB highB =>
    simp [le_iff_toNat_le] at low high lowB highB
    refine ⟨_, encode_value2 a b (by omega) (by omega) ((continuation_range b).mpr ⟨lowB, highB⟩) ?_ ?_⟩
    · unfold value2
      omega
    · unfold value2 Nat.isValidChar
      omega
  | three a b c low high lowB highB overlong surrogate lowC highC =>
    simp [le_iff_toNat_le] at low high lowB highB lowC highC
    simp [le_iff_toNat_le, ← UInt8.toNat_inj] at overlong surrogate
    refine ⟨_, encode_value3 a b c (by omega) (by omega)
      ((continuation_range b).mpr ⟨lowB, highB⟩) ((continuation_range c).mpr ⟨lowC, highC⟩) ?_ ?_⟩
    · unfold value3
      omega
    · unfold value3 Nat.isValidChar
      omega
  | four a b c d low high lowB highB overlong large lowC highC lowD highD =>
    simp [le_iff_toNat_le] at low high lowB highB lowC highC lowD highD
    simp [le_iff_toNat_le, ← UInt8.toNat_inj] at overlong large
    refine ⟨_, encode_value4 a b c d (by omega) (by omega)
      ((continuation_range b).mpr ⟨lowB, highB⟩) ((continuation_range c).mpr ⟨lowC, highC⟩)
      ((continuation_range d).mpr ⟨lowD, highD⟩) ?_ ?_⟩
    · unfold value4
      omega
    · unfold value4 Nat.isValidChar
      omega

theorem form_iff : Form bytes ↔ ∃ scalar, String.utf8EncodeChar scalar = bytes := by
  constructor
  · exact form_encoded bytes
  · rintro ⟨scalar, rfl⟩
    exact encoded_form scalar

theorem encode_ascii (ascii : scalar.val.toNat < 0x80) :
    String.utf8EncodeChar scalar = [ofNat scalar.val.toNat] := by
  rw [String.utf8EncodeChar, if_pos (by omega)]

theorem encoded_high (high : 0x80 ≤ scalar.val.toNat) :
    ∀ byte ∈ String.utf8EncodeChar scalar, 0x80 ≤ byte := by
  have range := scalar_range scalar
  unfold String.utf8EncodeChar
  generalize scalar.val.toNat = v at high range
  rw [if_neg (by omega)]
  intro byte member
  rw [le_iff_toNat_le]
  split at member
  · simp only [mem_cons, not_mem_nil, or_false] at member
    rcases member with rfl | rfl <;> simp [toNat_ofNat'] <;> omega
  split at member
  · simp only [mem_cons, not_mem_nil, or_false] at member
    rcases member with rfl | rfl | rfl <;> simp [toNat_ofNat'] <;> omega
  · simp only [mem_cons, not_mem_nil, or_false] at member
    rcases member with rfl | rfl | rfl | rfl <;> simp [toNat_ofNat'] <;> omega

-- A value is a scalar of its length class when it is neither overlong nor a surrogate.
def scalarFrom (least value : Nat) (rest : List UInt8) : Option (Char × List UInt8) :=
  if least ≤ value ∧ value.isValidChar then some (Char.ofNat value, rest) else none

def decodeFirst : List UInt8 → Option (Char × List UInt8)
  | [] => none
  | a :: rest =>
    if a.toNat ≤ 0x7F then some (Char.ofNat a.toNat, rest)
    else if a.toNat < 0xC0 then none
    else if a.toNat < 0xE0 then
      match rest with
      | b :: rest => if isContinuation b then scalarFrom 0x80 (value2 a b) rest else none
      | _ => none
    else if a.toNat < 0xF0 then
      match rest with
      | b :: c :: rest =>
        if isContinuation b && isContinuation c then scalarFrom 0x800 (value3 a b c) rest
        else none
      | _ => none
    else if a.toNat < 0xF8 then
      match rest with
      | b :: c :: d :: rest =>
        if isContinuation b && isContinuation c && isContinuation d then
          scalarFrom 0x10000 (value4 a b c d) rest
        else none
      | _ => none
    else none

theorem scalar_from_some (least value : Nat) (rest tail : List UInt8) (scalar : Char)
    (found : scalarFrom least value rest = some (scalar, tail)) :
    least ≤ value ∧ value.isValidChar ∧ scalar = Char.ofNat value ∧ tail = rest := by
  unfold scalarFrom at found
  split at found
  · rename_i bounds
    obtain ⟨rfl, rfl⟩ := Prod.mk.inj (some.inj found)
    exact ⟨bounds.1, bounds.2, rfl, rfl⟩
  · simp at found

variable (rest : List UInt8)

/-- Whatever the decoder takes off the front is the encoding of the scalar it reports. -/
theorem decode_first_sound (scalar : Char) (found : decodeFirst bytes = some (scalar, rest)) :
    bytes = String.utf8EncodeChar scalar ++ rest := by
  unfold decodeFirst at found
  split at found
  · simp at found
  rename_i a tail
  split at found
  · rename_i ascii
    obtain ⟨rfl, rfl⟩ := Prod.mk.inj (some.inj found)
    rw [encode_value1 a ascii]
    rfl
  split at found
  · simp at found
  split at found
  · split at found
    · split at found
      · rename_i b rest' continued
        obtain ⟨least, valid, same, tailSame⟩ := scalar_from_some _ _ _ _ _ found
        rw [same, tailSame, encode_value2 a b (by omega) (by omega) continued least valid]
        rfl
      · simp at found
    · simp at found
  split at found
  · split at found
    · split at found
      · rename_i b c rest' continued
        obtain ⟨least, valid, same, tailSame⟩ := scalar_from_some _ _ _ _ _ found
        simp only [Bool.and_eq_true] at continued
        rw [same, tailSame, encode_value3 a b c (by omega) (by omega) continued.1 continued.2 least valid]
        rfl
      · simp at found
    · simp at found
  split at found
  · split at found
    · split at found
      · rename_i b c d rest' continued
        obtain ⟨least, valid, same, tailSame⟩ := scalar_from_some _ _ _ _ _ found
        simp only [Bool.and_eq_true] at continued
        rw [same, tailSame, encode_value4 a b c d (by omega) (by omega) continued.1.1 continued.1.2
          continued.2 least valid]
        rfl
      · simp at found
    · simp at found
  · simp at found

theorem scalar_from_encoded (least value : Nat) (rest : List UInt8)
    (same : value = scalar.val.toNat) (bound : least ≤ value) :
    scalarFrom least value rest = some (scalar, rest) := by
  have valid : value.isValidChar := same ▸ scalar.valid
  have back : Char.ofNat value = scalar := by
    apply Char.ext
    apply UInt32.toNat_inj.mp
    rw [of_nat_value value valid, same]
  simp [scalarFrom, bound, valid, back]

/-- Decoding the front of an encoded text gives back its first scalar. -/
theorem decode_first_encoded : decodeFirst (String.utf8EncodeChar scalar ++ rest) = some (scalar, rest) := by
  have range := scalar_range scalar
  unfold String.utf8EncodeChar
  simp only
  split
  · rename_i small
    have byte : (ofNat scalar.val.toNat).toNat = scalar.val.toNat := by
      rw [toNat_ofNat']
      omega
    simp only [cons_append, nil_append, decodeFirst, byte, small, ↓reduceIte]
    exact congrArg (fun first => some (first, rest)) (Char.ofNat_toNat scalar)
  split
  · have first : (ofNat (scalar.val.toNat / 64 % 32 + 0xC0)).toNat =
        scalar.val.toNat / 64 + 0xC0 := by rw [toNat_ofNat']; omega
    have second : (ofNat (scalar.val.toNat % 64 + 0x80)).toNat =
        scalar.val.toNat % 64 + 0x80 := by rw [toNat_ofNat']; omega
    simp only [cons_append, nil_append, decodeFirst]
    rw [if_neg (by omega), if_neg (by omega), if_pos (by omega),
      if_pos ((continuation_range _).mpr (by omega))]
    apply scalar_from_encoded <;> unfold value2 <;> omega
  split
  · have first : (ofNat (scalar.val.toNat / 4096 % 16 + 0xE0)).toNat =
        scalar.val.toNat / 4096 + 0xE0 := by rw [toNat_ofNat']; omega
    have second : (ofNat (scalar.val.toNat / 64 % 64 + 0x80)).toNat =
        scalar.val.toNat / 64 % 64 + 0x80 := by rw [toNat_ofNat']; omega
    have third : (ofNat (scalar.val.toNat % 64 + 0x80)).toNat =
        scalar.val.toNat % 64 + 0x80 := by rw [toNat_ofNat']; omega
    simp only [cons_append, nil_append, decodeFirst]
    rw [if_neg (by omega), if_neg (by omega), if_neg (by omega), if_pos (by omega),
      if_pos (by simp only [Bool.and_eq_true, continuation_range]; omega)]
    apply scalar_from_encoded <;> unfold value3 <;> omega
  · have first : (ofNat (scalar.val.toNat / 262144 % 8 + 0xF0)).toNat =
        scalar.val.toNat / 262144 + 0xF0 := by rw [toNat_ofNat']; omega
    have second : (ofNat (scalar.val.toNat / 4096 % 64 + 0x80)).toNat =
        scalar.val.toNat / 4096 % 64 + 0x80 := by rw [toNat_ofNat']; omega
    have third : (ofNat (scalar.val.toNat / 64 % 64 + 0x80)).toNat =
        scalar.val.toNat / 64 % 64 + 0x80 := by rw [toNat_ofNat']; omega
    have fourth : (ofNat (scalar.val.toNat % 64 + 0x80)).toNat =
        scalar.val.toNat % 64 + 0x80 := by rw [toNat_ofNat']; omega
    simp only [cons_append, nil_append, decodeFirst]
    rw [if_neg (by omega), if_neg (by omega), if_neg (by omega), if_neg (by omega),
      if_pos (by omega), if_pos (by simp only [Bool.and_eq_true, continuation_range]; omega)]
    apply scalar_from_encoded <;> unfold value4 <;> omega

-- The fuel is the number of bytes left: every scalar takes at least one.
def decodeWithin : Nat → List UInt8 → Option (List Char)
  | _, [] => some []
  | 0, _ :: _ => none
  | fuel + 1, bytes =>
    match decodeFirst bytes with
    | some (scalar, rest) => (decodeWithin fuel rest).map (scalar :: ·)
    | none => none

/-- Total decoding of a whole byte string, `none` on ill-formed input. -/
def decode (bytes : List UInt8) : Option (List Char) := decodeWithin bytes.length bytes

theorem encoded_nonempty : ∃ first rest, String.utf8EncodeChar scalar = first :: rest := by
  cases shape : String.utf8EncodeChar scalar with
  | nil => exact absurd shape String.utf8EncodeChar_ne_nil
  | cons first rest => exact ⟨first, rest, rfl⟩

theorem decode_within_encode (fuel : Nat) (enough : (encode text).length ≤ fuel) :
    decodeWithin fuel (encode text) = some text := by
  induction text generalizing fuel with
  | nil => cases fuel <;> rfl
  | cons scalar rest ih =>
    obtain ⟨first, tail, shape⟩ := encoded_nonempty scalar
    cases fuel with
    | zero => simp [shape] at enough
    | succ fuel =>
      have bound : (encode rest).length ≤ fuel := by
        simp [shape] at enough
        omega
      have front := decode_first_encoded scalar (encode rest)
      rw [encode_cons, shape, cons_append, decodeWithin, ← cons_append, ← shape, front]
      · simp [ih fuel bound]
      · simp

theorem decode_encode : decode (encode text) = some text :=
  decode_within_encode text _ le_rfl

theorem decode_within_sound (found : decodeWithin fuel bytes = some text) : encode text = bytes := by
  induction fuel generalizing bytes text with
  | zero =>
    cases bytes with
    | nil => simp_all [decodeWithin]
    | cons first rest => simp [decodeWithin] at found
  | succ fuel ih =>
    cases bytes with
    | nil =>
      simp only [decodeWithin, some.injEq] at found
      subst text
      rfl
    | cons first rest =>
      cases front : decodeFirst (first :: rest) with
      | none => simp [decodeWithin, front] at found
      | some pair =>
        obtain ⟨scalar, tail⟩ := pair
        simp only [decodeWithin, front, map_eq_some_iff] at found
        obtain ⟨more, decoded, same⟩ := found
        subst same
        rw [encode_cons, ih tail more decoded]
        exact (decode_first_sound _ _ _ front).symm

/-- `decode` accepts exactly the well-formed byte strings and inverts `encode`. -/
theorem decode_eq_some : decode bytes = some text ↔ encode text = bytes := by
  constructor
  · exact decode_within_sound _ bytes text
  · rintro rfl
    exact decode_encode text

theorem encode_injective : Function.Injective encode := by
  intro left right same
  have decoded := decode_encode left
  rw [same, decode_encode] at decoded
  exact (some.inj decoded).symm

section Offsets

/-- `char::len_utf16` -/
def lenUtf16 (scalar : Char) : Nat := if scalar.val.toNat < 0x10000 then 1 else 2

theorem len_utf16_positive (scalar : Char) : 0 < lenUtf16 scalar := by
  unfold lenUtf16
  split <;> decide

theorem len_utf16_bytes (scalar : Char) : lenUtf16 scalar ≤ scalar.utf8Size := by
  unfold lenUtf16
  split
  · exact scalar.utf8Size_pos
  · rw [← String.length_utf8EncodeChar, String.utf8EncodeChar]
    rw [if_neg (by omega), if_neg (by omega), if_neg (by omega)]
    simp

/-- `str::len`: the number of bytes. -/
def size (text : List Char) : Nat := (encode text).length

@[simp] theorem size_nil : size [] = 0 := rfl

@[simp] theorem size_cons (scalar : Char) (rest : List Char) :
    size (scalar :: rest) = scalar.utf8Size + size rest := by
  simp [size]

@[simp] theorem size_append (left right : List Char) : size (left ++ right) = size left + size right := by
  simp [size]

theorem size_zero (text : List Char) (zero : size text = 0) : text = [] := by
  cases text with
  | nil => rfl
  | cons scalar rest =>
    have positive := scalar.utf8Size_pos
    rw [size_cons] at zero
    omega

theorem encoded_tail (scalar : Char) :
    ∃ first tail, String.utf8EncodeChar scalar = first :: tail ∧ isContinuation first = false ∧
      ∀ byte ∈ tail, isContinuation byte = true := by
  have form := encoded_form scalar
  generalize String.utf8EncodeChar scalar = bytes at form
  cases form with
  | one a high =>
    refine ⟨a, [], rfl, ?_, by simp⟩
    rw [← Bool.not_eq_true, continuation_range]
    simp only [le_iff_toNat_le, reduceToNat] at high
    omega
  | two a b low high lowB highB =>
    refine ⟨a, [b], rfl, ?_, by simp [isContinuation, lowB, highB]⟩
    rw [← Bool.not_eq_true, continuation_range]
    simp only [le_iff_toNat_le, reduceToNat] at low
    omega
  | three a b c low high lowB highB overlong surrogate lowC highC =>
    refine ⟨a, [b, c], rfl, ?_, by simp [isContinuation, lowB, highB, lowC, highC]⟩
    rw [← Bool.not_eq_true, continuation_range]
    simp only [le_iff_toNat_le, reduceToNat] at low
    omega
  | four a b c d low high lowB highB overlong large lowC highC lowD highD =>
    refine ⟨a, [b, c, d], rfl, ?_, by simp [isContinuation, lowB, highB, lowC, highC, lowD, highD]⟩
    rw [← Bool.not_eq_true, continuation_range]
    simp only [le_iff_toNat_le, reduceToNat] at low
    omega

/-- Bytes and scalars stop at the same place when a byte predicate tells whole
scalars apart. -/
theorem encode_take_while (keepByte : UInt8 → Bool) (keep : Char → Bool)
    (kept : ∀ scalar, keep scalar = true → ∀ byte ∈ String.utf8EncodeChar scalar, keepByte byte = true)
    (stops : ∀ scalar, keep scalar = false →
      ∃ first tail, String.utf8EncodeChar scalar = first :: tail ∧ keepByte first = false)
    (text : List Char) : (encode text).takeWhile keepByte = encode (text.takeWhile keep) := by
  induction text with
  | nil => rfl
  | cons scalar rest ih =>
    cases decided : keep scalar with
    | true =>
      rw [encode_cons, takeWhile_append_of_pos (kept scalar decided), ih]
      simp [decided]
    | false =>
      obtain ⟨first, tail, shape, refused⟩ := stops scalar decided
      rw [encode_cons, shape]
      simp [decided, refused]

/-- An ASCII byte in front is the encoding of the ASCII scalar in front. -/
theorem encode_head (text : List Char) (target : Char) (ascii : target.val.toNat < 0x80) :
    (encode text).head? = some (ofNat target.val.toNat) ↔ text.head? = some target := by
  cases text with
  | nil => simp
  | cons scalar rest =>
    by_cases low : scalar.val.toNat < 0x80
    · rw [encode_cons, encode_ascii scalar low]
      simp only [cons_append, head?_cons, some.injEq, ← UInt8.toNat_inj,
        toNat_ofNat', ← Char.val_inj, ← UInt32.toNat_inj]
      omega
    have high := encoded_high scalar (by omega)
    obtain ⟨first, tail, shape⟩ := encoded_nonempty scalar
    have lead := high first (by rw [shape]; simp)
    rw [encode_cons, shape]
    simp only [cons_append, head?_cons, some.injEq]
    constructor
    · rintro rfl
      simp only [le_iff_toNat_le, toNat_ofNat', reduceToNat] at lead
      omega
    · rintro rfl
      omega

theorem encode_getLast (text : List Char) (target : Char) (ascii : target.val.toNat < 0x80) :
    (encode text).getLast? = some (ofNat target.val.toNat) ↔ text.getLast? = some target := by
  rcases eq_nil_or_concat text with rfl | ⟨front, scalar, rfl⟩
  · simp
  have width : String.utf8EncodeChar scalar ≠ [] := String.utf8EncodeChar_ne_nil
  have last : (encode (front.concat scalar)).getLast? = (String.utf8EncodeChar scalar).getLast? := by
    rw [concat_eq_append, encode_append, encode_cons, encode_nil, append_nil,
      getLast?_append_of_ne_nil _ width]
  rw [last, concat_eq_append, getLast?_concat, some.injEq]
  by_cases low : scalar.val.toNat < 0x80
  · rw [encode_ascii scalar low, getLast?_singleton, some.injEq, ← UInt8.toNat_inj,
      toNat_ofNat', toNat_ofNat', ← Char.val_inj, ← UInt32.toNat_inj]
    omega
  have high := encoded_high scalar (by omega)
  constructor
  · intro found
    have lead := high _ (mem_of_getLast? found)
    simp only [le_iff_toNat_le, toNat_ofNat', reduceToNat] at lead
    omega
  · rintro rfl
    omega

/-- `str::is_char_boundary`: both ends, and every byte that starts a scalar. -/
def isCharBoundary (text : List Char) (offset : Nat) : Bool :=
  if offset = 0 then true
  else
    match (encode text)[offset]? with
    | some byte => !isContinuation byte
    | none => offset == size text

def splitAtByte : List Char → Nat → Option (List Char × List Char)
  | text, 0 => some ([], text)
  | [], _ + 1 => none
  | scalar :: rest, offset =>
    if scalar.utf8Size ≤ offset then
      (splitAtByte rest (offset - scalar.utf8Size)).map fun parts => (scalar :: parts.1, parts.2)
    else none

/-- `str::get(start..stop)`. -/
def slice (text : List Char) (start stop : Nat) : Option (List Char) :=
  if start ≤ stop then
    (splitAtByte text start).bind fun parts => (splitAtByte parts.2 (stop - start)).map Prod.fst
  else none

/-- `while n > 0 && !text.is_char_boundary(n) { n -= 1 }` -/
def floorBoundary (text : List Char) : Nat → Nat
  | 0 => 0
  | offset + 1 =>
    if isCharBoundary text (offset + 1) then offset + 1 else floorBoundary text offset

theorem boundary_past_scalar (scalar : Char) (rest : List Char) (offset : Nat)
    (past : scalar.utf8Size ≤ offset) :
    isCharBoundary (scalar :: rest) offset = isCharBoundary rest (offset - scalar.utf8Size) := by
  have positive := scalar.utf8Size_pos
  have width := String.length_utf8EncodeChar scalar
  have byte : (encode (scalar :: rest))[offset]? = (encode rest)[offset - scalar.utf8Size]? := by
    rw [encode_cons, getElem?_append_right (by omega), width]
  unfold isCharBoundary
  rw [if_neg (by omega), byte]
  by_cases start : offset - scalar.utf8Size = 0
  · rw [if_pos start, start]
    cases rest with
    | nil => simp; omega
    | cons next more =>
      obtain ⟨first, tail, shape, lead, -⟩ := encoded_tail next
      simp [shape, lead]
  · rw [if_neg start, size_cons]
    cases (encode rest)[offset - scalar.utf8Size]? with
    | some byte => rfl
    | none =>
      simp only [Bool.beq_eq_decide_eq, decide_eq_decide]
      omega

theorem boundary_inside_scalar (scalar : Char) (rest : List Char) (offset : Nat)
    (started : 0 < offset) (inside : offset < scalar.utf8Size) :
    isCharBoundary (scalar :: rest) offset = false := by
  obtain ⟨first, tail, shape, -, continued⟩ := encoded_tail scalar
  have width := String.length_utf8EncodeChar scalar
  rw [shape, length_cons] at width
  obtain ⟨before, rfl⟩ := Nat.exists_eq_add_one_of_ne_zero (by omega : offset ≠ 0)
  have here : before < tail.length := by omega
  have byte : (encode (scalar :: rest))[before + 1]? = some tail[before] := by
    rw [encode_cons, shape, cons_append, getElem?_cons_succ,
      getElem?_append_left here, getElem?_eq_getElem here]
  rw [isCharBoundary, if_neg (by omega), byte]
  simp [continued _ (getElem_mem here)]

theorem split_at_byte_iff (text : List Char) (offset : Nat) (before after : List Char) :
    splitAtByte text offset = some (before, after) ↔ text = before ++ after ∧ size before = offset := by
  induction text generalizing offset before with
  | nil =>
    cases offset with
    | zero =>
      simp only [splitAtByte, some.injEq, Prod.mk.injEq]
      constructor
      · rintro ⟨rfl, rfl⟩
        exact ⟨rfl, rfl⟩
      · rintro ⟨parts, -⟩
        obtain ⟨rfl, rfl⟩ := append_eq_nil_iff.mp parts.symm
        exact ⟨rfl, rfl⟩
    | succ offset =>
      simp only [splitAtByte, reduceCtorEq, false_iff, not_and]
      intro parts
      obtain ⟨rfl, rfl⟩ := append_eq_nil_iff.mp parts.symm
      simp
  | cons scalar rest ih =>
    have positive := scalar.utf8Size_pos
    cases offset with
    | zero =>
      simp only [splitAtByte, some.injEq, Prod.mk.injEq]
      constructor
      · rintro ⟨rfl, rfl⟩
        exact ⟨rfl, rfl⟩
      · rintro ⟨parts, zero⟩
        obtain rfl := size_zero before zero
        exact ⟨rfl, parts⟩
    | succ offset =>
      rw [splitAtByte]
      · constructor
        · intro found
          split at found
          · obtain ⟨parts, split, same⟩ := map_eq_some_iff.mp found
            obtain ⟨rfl, rfl⟩ := Prod.mk.inj same
            obtain ⟨rfl, width⟩ := (ih _ _).mp split
            exact ⟨rfl, by rw [size_cons]; omega⟩
          · simp at found
        · rintro ⟨parts, width⟩
          cases before with
          | nil => simp at width
          | cons first more =>
            obtain ⟨rfl, tail⟩ := List.cons.inj parts
            rw [size_cons] at width
            rw [if_pos (by omega), (ih _ more).mpr ⟨tail, by omega⟩]
            rfl
      · simp

theorem split_at_byte (before after : List Char) :
    splitAtByte (before ++ after) (size before) = some (before, after) :=
  (split_at_byte_iff _ _ _ _).mpr ⟨rfl, rfl⟩

theorem slice_parts (before middle after : List Char) :
    slice (before ++ middle ++ after) (size before) (size before + size middle) = some middle := by
  rw [slice, append_assoc, split_at_byte]
  simp [split_at_byte]

/-- A boundary is exactly the size of some front part of the text. -/
theorem boundary_iff (text : List Char) (offset : Nat) : isCharBoundary text offset = true ↔
      ∃ before after, text = before ++ after ∧ size before = offset := by
  induction text generalizing offset with
  | nil =>
    constructor
    · intro boundary
      refine ⟨[], [], rfl, ?_⟩
      by_contra nonzero
      have other : offset ≠ 0 := fun same => nonzero (by simp [same])
      simp [isCharBoundary, other] at boundary
    · rintro ⟨before, after, parts, rfl⟩
      obtain ⟨rfl, rfl⟩ := append_eq_nil_iff.mp parts.symm
      rfl
  | cons scalar rest ih =>
    have positive := scalar.utf8Size_pos
    by_cases past : scalar.utf8Size ≤ offset
    · rw [boundary_past_scalar scalar rest offset past, ih]
      constructor
      · rintro ⟨before, after, rfl, width⟩
        exact ⟨scalar :: before, after, rfl, by rw [size_cons]; omega⟩
      · rintro ⟨before, after, parts, width⟩
        cases before with
        | nil =>
          rw [size_nil] at width
          omega
        | cons first more =>
          obtain ⟨rfl, tail⟩ := List.cons.inj parts
          rw [size_cons] at width
          exact ⟨more, after, tail, by omega⟩
    · by_cases started : offset = 0
      · subst started
        exact ⟨fun _ => ⟨[], scalar :: rest, rfl, rfl⟩, fun _ => rfl⟩
      rw [boundary_inside_scalar scalar rest offset (by omega) (by omega)]
      simp only [Bool.false_eq_true, false_iff]
      rintro ⟨before, after, parts, width⟩
      cases before with
      | nil =>
        rw [size_nil] at width
        omega
      | cons first more =>
        obtain ⟨rfl, -⟩ := List.cons.inj parts
        rw [size_cons] at width
        omega

/-- Stepping back to a boundary finds the longest front part that fits. -/
theorem floor_boundary_front (text : List Char) (offset : Nat) (bound : offset ≤ size text) :
    ∃ before after, text = before ++ after ∧ floorBoundary text offset = size before ∧ size before ≤ offset ∧
      ∀ scalar rest, after = scalar :: rest → offset < size before + scalar.utf8Size := by
  induction offset with
  | zero =>
    refine ⟨[], text, rfl, rfl, le_rfl, ?_⟩
    intro scalar rest _
    have positive := scalar.utf8Size_pos
    rw [size_nil]
    omega
  | succ offset ih =>
    by_cases boundary : isCharBoundary text (offset + 1) = true
    · obtain ⟨before, after, rfl, width⟩ := (boundary_iff _ _).mp boundary
      refine ⟨before, after, rfl, ?_, by omega, ?_⟩
      · rw [floorBoundary, if_pos boundary, width]
      · intro scalar rest _
        have positive := scalar.utf8Size_pos
        omega
    · obtain ⟨before, after, rfl, floor, fits, next⟩ := ih (by omega)
      refine ⟨before, after, rfl, ?_, by omega, ?_⟩
      · rw [floorBoundary, if_neg boundary, floor]
      · intro scalar rest shape
        have bounded := next scalar rest shape
        by_contra reached
        refine boundary ((boundary_iff _ _).mpr ⟨before ++ [scalar], rest, ?_, ?_⟩)
        · rw [shape]
          simp
        · rw [size_append, size_cons, size_nil]
          omega

/-- A boundary inside a middle part cuts that part. -/
theorem split_middle (before content after left right : List Char)
    (parts : before ++ content ++ after = left ++ right) (low : size before ≤ size left)
    (high : size left ≤ size before + size content) :
    ∃ front back, content = front ++ back ∧ left = before ++ front ∧ right = back ++ after := by
  rw [append_assoc] at parts
  rcases append_eq_append_iff.mp parts with ⟨front, grown, tail⟩ | ⟨gap, shrunk, tail⟩
  · rw [grown, size_append] at high
    rcases append_eq_append_iff.mp tail with ⟨extra, past, rest⟩ | ⟨back, cut, rest⟩
    · rw [past, size_append] at high
      have vacant := size_zero extra (by omega)
      subst vacant
      exact ⟨content, [], by simp, by rw [grown, past]; simp, by simpa using rest.symm⟩
    · exact ⟨front, back, cut, grown, rest⟩
  · rw [shrunk, size_append] at low
    have vacant := size_zero gap (by omega)
    subst vacant
    exact ⟨[], content, rfl, by simpa using shrunk.symm, by simpa using tail⟩

/-- Bytes that begin with an encoded text encode a text that begins with it. -/
theorem encoded_prefix (front text : List Char) (rest : List UInt8)
    (bytes : encode text = encode front ++ rest) : ∃ back, text = front ++ back ∧ encode back = rest := by
  induction front generalizing text with
  | nil => exact ⟨text, rfl, bytes⟩
  | cons scalar front ih =>
    cases text with
    | nil =>
      have positive := scalar.utf8Size_pos
      have lengths := congrArg List.length bytes
      simp only [encode_cons, encode_nil, length_append, length_nil, String.length_utf8EncodeChar] at lengths
      omega
    | cons first tail =>
      rw [encode_cons, encode_cons, append_assoc] at bytes
      have decoded := congrArg decodeFirst bytes
      rw [decode_first_encoded, decode_first_encoded] at decoded
      obtain ⟨rfl, tailBytes⟩ := Prod.mk.inj (some.inj decoded)
      obtain ⟨back, rfl, backBytes⟩ := ih tail tailBytes
      exact ⟨back, rfl, backBytes⟩

theorem slice_some (text piece : List Char) (start stop : Nat) (found : slice text start stop = some piece) :
    ∃ before after, text = before ++ piece ++ after ∧ size before = start ∧
      size (before ++ piece) = stop := by
  unfold slice at found
  split at found
  · next order =>
      obtain ⟨parts, cut, taken⟩ := bind_eq_some_iff.mp found
      obtain ⟨inner, cutInner, rfl⟩ := map_eq_some_iff.mp taken
      obtain ⟨rfl, width⟩ := (split_at_byte_iff _ _ _ _).mp cut
      obtain ⟨shape, widthInner⟩ := (split_at_byte_iff _ _ _ _).mp cutInner
      refine ⟨parts.1, inner.2, by rw [append_assoc, ← shape], width, ?_⟩
      rw [size_append, width, widthInner]
      omega
  · cases found

/-- A slice depends on no byte past its end. -/
theorem slice_unchanged (old new piece : List Char) (start stop : Nat)
    (found : slice old start stop = some piece)
    (same : (encode new).take stop = (encode old).take stop) : slice new start stop = some piece := by
  obtain ⟨before, after, rfl, starts, stops⟩ := slice_some old piece start stop found
  have front : (encode (before ++ piece ++ after)).take stop = encode (before ++ piece) := by
    rw [encode_append, ← stops]
    exact take_left' rfl
  have bytes : encode new = encode (before ++ piece) ++ (encode new).drop stop := by
    rw [← front, ← same, take_append_drop]
  obtain ⟨back, rfl, -⟩ := encoded_prefix _ new _ bytes
  have parts := slice_parts before piece back
  rwa [starts, ← starts, ← size_append, stops, starts] at parts

/-- A slice behind a front part moves with the size of that part. -/
theorem slice_moved (front other rest piece : List Char) (start stop : Nat)
    (found : slice (front ++ rest) start stop = some piece) (behind : size front ≤ start) :
    slice (other ++ rest) (size other + (start - size front))
      (size other + (stop - size front)) = some piece := by
  obtain ⟨before, after, shape, starts, stops⟩ := slice_some _ piece start stop found
  rw [append_assoc] at shape
  obtain ⟨gap, rfl, rfl⟩ : ∃ gap, before = front ++ gap ∧ rest = gap ++ (piece ++ after) := by
    rcases append_eq_append_iff.mp shape with ⟨gap, grown, tail⟩ | ⟨gap, shrunk, tail⟩
    · exact ⟨gap, grown, tail⟩
    have sizes := congrArg size shrunk
    rw [size_append] at sizes
    obtain rfl := size_zero gap (by omega)
    exact ⟨[], by simpa using shrunk.symm, by simpa using tail.symm⟩
  have parts := slice_parts (other ++ gap) piece after
  simp only [size_append] at parts starts stops
  have first : size other + (start - size front) = size other + size gap := by omega
  have last : size other + (stop - size front) = size other + size gap + size piece := by omega
  rw [first, last]
  simpa only [append_assoc] using parts

theorem slice_ordered (text piece : List Char) (start stop : Nat)
    (found : slice text start stop = some piece) : start ≤ stop ∧ size piece = stop - start := by
  obtain ⟨before, after, -, starts, stops⟩ := slice_some text piece start stop found
  rw [size_append] at stops
  omega

end Offsets

end PerlLsp.Utf8
