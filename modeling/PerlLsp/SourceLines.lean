import PerlLsp.Text
import PerlLsp.Utf8

/-! `LineRecordTable` of perl-position-tracking/src/source_lines.rs: the
streaming scanner that turns source bytes, contiguous or in chunks, into LF rows,
and the UTF-8 validator it carries across chunk ends. A CR waits in
`pendingCrAt` until the next byte decides whether it belongs to a CRLF pair.
Offsets are `usize`: additions are checked against its largest value. -/
namespace PerlLsp.SourceLines
open Text Utf8 List UInt8

def LF : UInt8 := 0x0A
def CR : UInt8 := 0x0D

inductive SeparatorKind where
  | none
  | lf
  | crLf
  deriving DecidableEq, Repr

def SeparatorKind.byteLen : SeparatorKind → Nat
  | .none => 0
  | .lf => 1
  | .crLf => 2

/-- A row's byte bounds. What `LineRecord::new` checks are fields, so a record that breaks it cannot
exist. -/
structure LineRecord where
  startByte : Nat
  contentEndByte : Nat
  separatorEndByte : Nat
  separatorKind : SeparatorKind
  ordered : startByte ≤ contentEndByte ∧ contentEndByte ≤ separatorEndByte
  widthExact : separatorEndByte - contentEndByte = separatorKind.byteLen
  deriving DecidableEq

inductive SourceLineError where
  | invalidUtf8
  | arithmeticOverflow
  | invalidRecord (startByte contentEndByte separatorEndByte : Nat)
  | separatorKindMismatch (startByte : Nat) (separatorKind : SeparatorKind)
      (separatorByteLen : Nat)
  | nonCoveringRecords (index expectedStart foundStart : Nat)
  | nonTerminalRowWithNoSeparator (index : Nat)
  | missingTerminalRow
  deriving DecidableEq

def LineRecord.new (startByte contentEndByte separatorEndByte : Nat)
    (separatorKind : SeparatorKind) : Except SourceLineError LineRecord :=
  if ordered : startByte ≤ contentEndByte ∧ contentEndByte ≤ separatorEndByte then
    if width : separatorEndByte - contentEndByte = separatorKind.byteLen then
      .ok ⟨startByte, contentEndByte, separatorEndByte, separatorKind, ordered, width⟩
    else
      .error (.separatorKindMismatch startByte separatorKind (separatorEndByte - contentEndByte))
  else .error (.invalidRecord startByte contentEndByte separatorEndByte)

structure LineRecordTable where
  sourceByteLength : Nat
  records : List LineRecord
  deriving DecidableEq

-- First loop of `try_from_records`: where the next record must start.
def checkCovered : Nat → Nat → List LineRecord → Except SourceLineError Nat
  | _, expectedStart, [] => .ok expectedStart
  | index, expectedStart, record :: rest =>
    if record.startByte ≠ expectedStart then
      .error (.nonCoveringRecords index expectedStart record.startByte)
    else checkCovered (index + 1) record.separatorEndByte rest

-- Second loop: a separator on every row but the last, none on the last.
def checkSeparators : Nat → List LineRecord → Except SourceLineError Unit
  | _, [] => .ok ()
  | _, [record] =>
    match record.separatorKind with
    | .none => .ok ()
    | _ => .error .missingTerminalRow
  | index, record :: next :: rest =>
    match record.separatorKind with
    | .none => .error (.nonTerminalRowWithNoSeparator index)
    | _ => checkSeparators (index + 1) (next :: rest)

def tryFromRecords (sourceByteLength : Nat) (records : List LineRecord) :
    Except SourceLineError LineRecordTable := do
  let expectedStart ← checkCovered 0 0 records
  if expectedStart ≠ sourceByteLength then
    throw (.nonCoveringRecords records.length expectedStart sourceByteLength)
  if records.isEmpty then
    throw .missingTerminalRow
  checkSeparators 0 records
  return ⟨sourceByteLength, records⟩

structure Utf8Validator where
  remaining : UInt8 := 0
  nextMin : UInt8 := 0
  nextMax : UInt8 := 0
  deriving DecidableEq

def Utf8Validator.begin (remaining nextMin nextMax : UInt8) : Option Utf8Validator :=
  some ⟨remaining, nextMin, nextMax⟩

/-- `advance`: the state after one byte, `none` where the method returns `false`. -/
def Utf8Validator.advance (validator : Utf8Validator) (byte : UInt8) : Option Utf8Validator :=
  if validator.remaining = 0 then
    if byte ≤ 0x7F then some validator
    else if 0xC2 ≤ byte ∧ byte ≤ 0xDF then begin 1 0x80 0xBF
    else if byte = 0xE0 then begin 2 0xA0 0xBF
    else if 0xE1 ≤ byte ∧ byte ≤ 0xEC ∨ 0xEE ≤ byte ∧ byte ≤ 0xEF then begin 2 0x80 0xBF
    else if byte = 0xED then begin 2 0x80 0x9F
    else if byte = 0xF0 then begin 3 0x90 0xBF
    else if 0xF1 ≤ byte ∧ byte ≤ 0xF3 then begin 3 0x80 0xBF
    else if byte = 0xF4 then begin 3 0x80 0x8F
    else none
  else if (0x80 ≤ byte ∧ byte ≤ 0xBF) ∧ validator.nextMin ≤ byte ∧ byte ≤ validator.nextMax then
    some ⟨validator.remaining - 1, 0x80, 0xBF⟩
  else none

def Utf8Validator.isComplete (validator : Utf8Validator) : Bool := validator.remaining == 0

structure Scanner where
  pendingCrAt : Option Nat := none
  recordStart : Nat := 0
  offset : Nat := 0
  records : List LineRecord := []
  utf8 : Utf8Validator := {}

def checkedAdd (left right : Nat) : Except SourceLineError Nat :=
  if left + right ≤ usizeMax then .ok (left + right) else .error .arithmeticOverflow

-- The `map_err` of both record sites: a rejection would surface as an overflow.
def recordOrOverflow (startByte contentEndByte separatorEndByte : Nat)
    (separatorKind : SeparatorKind) : Except SourceLineError LineRecord :=
  match LineRecord.new startByte contentEndByte separatorEndByte separatorKind with
  | .ok record => .ok record
  | .error _ => .error .arithmeticOverflow

def Scanner.endRow (scanner : Scanner) (contentEnd : Nat) (kind : SeparatorKind) :
    Except SourceLineError Scanner := do
  let separatorEnd ← checkedAdd scanner.offset 1
  let record ← recordOrOverflow scanner.recordStart contentEnd separatorEnd kind
  return { scanner with
    pendingCrAt := none
    recordStart := separatorEnd
    offset := separatorEnd
    records := scanner.records ++ [record] }

def Scanner.pushByte (scanner : Scanner) (byte : UInt8) : Except SourceLineError Scanner :=
  if byte = LF then
    match scanner.pendingCrAt with
    | some crAt => scanner.endRow crAt .crLf
    | none => scanner.endRow scanner.offset .lf
  else do
    let offset ← checkedAdd scanner.offset 1
    return { scanner with
      pendingCrAt := if byte = CR then some scanner.offset else none
      offset }

def Scanner.pushBytes (scanner : Scanner) : List UInt8 → Except SourceLineError Scanner
  | [] => .ok scanner
  | byte :: rest => do (← scanner.pushByte byte).pushBytes rest

def Scanner.pushUtf8Chunk (scanner : Scanner) : List UInt8 → Except SourceLineError Scanner
  | [] => .ok scanner
  | byte :: rest =>
    match scanner.utf8.advance byte with
    | none => .error .invalidUtf8
    | some utf8 => do (← ({ scanner with utf8 } : Scanner).pushByte byte).pushUtf8Chunk rest

def Scanner.finish (scanner : Scanner) : Except SourceLineError LineRecordTable := do
  let record ← LineRecord.new scanner.recordStart scanner.offset scanner.offset .none
  tryFromRecords scanner.offset (scanner.records ++ [record])

def fromStr (source : List Char) : Except SourceLineError LineRecordTable := do
  (← ({} : Scanner).pushBytes (encode source)).finish

def Scanner.pushChunks (scanner : Scanner) : List (List UInt8) → Except SourceLineError Scanner
  | [] => .ok scanner
  | chunk :: rest => do (← scanner.pushUtf8Chunk chunk).pushChunks rest

def fromChunksUtf8 (chunks : List (List UInt8)) : Except SourceLineError LineRecordTable := do
  let scanner ← ({} : Scanner).pushChunks chunks
  if !scanner.utf8.isComplete then
    throw .invalidUtf8
  scanner.finish

/-- `slice::partition_point` on a list partitioned by the predicate. -/
def partitionPoint {Item : Type} (keep : Item → Bool) (items : List Item) : Nat :=
  (items.takeWhile keep).length

def lineIndexAtByte (table : LineRecordTable) (byteOffset : Nat) : Option Nat :=
  if table.sourceByteLength < byteOffset then none
  else some (partitionPoint (fun record => record.startByte ≤ byteOffset) table.records - 1)

section Validation

def Utf8Validator.run (validator : Utf8Validator) : List UInt8 → Option Utf8Validator
  | [] => some validator
  | byte :: rest =>
    match validator.advance byte with
    | some next => next.run rest
    | none => none

def Owed : Nat → List UInt8 → Prop
  | 0, bytes => Valid bytes
  | count + 1, bytes => ∃ byte rest, bytes = byte :: rest ∧ isContinuation byte = true ∧
      Owed count rest

/-- What may follow a validator state: well-formed text, and inside a scalar a first continuation
within the recorded bounds. -/
def MayFollow (validator : Utf8Validator) (bytes : List UInt8) : Prop :=
  if validator.remaining = 0 then Valid bytes
  else ∃ byte rest, bytes = byte :: rest ∧ isContinuation byte = true ∧
    validator.nextMin ≤ byte ∧ byte ≤ validator.nextMax ∧
    Owed (validator.remaining.toNat - 1) rest

theorem valid_append (scalar : Char) (rest : List UInt8) (valid : Valid rest) :
    Valid (String.utf8EncodeChar scalar ++ rest) := by
  obtain ⟨text, rfl⟩ := valid
  exact ⟨scalar :: text, rfl⟩

theorem form_append (front rest : List UInt8) (form : Form front) (valid : Valid rest) :
    Valid (front ++ rest) := by
  obtain ⟨scalar, rfl⟩ := (form_iff front).mp form
  exact valid_append scalar rest valid

theorem valid_cons (byte : UInt8) (rest : List UInt8) (valid : Valid (byte :: rest)) :
    ∃ front tail, Form (byte :: front) ∧ rest = front ++ tail ∧ Valid tail := by
  obtain ⟨text, encoded⟩ := valid
  cases text with
  | nil => simp at encoded
  | cons scalar more =>
    obtain ⟨first, front, shape⟩ := encoded_nonempty scalar
    rw [encode_cons, shape] at encoded
    obtain ⟨rfl, rfl⟩ := List.cons.inj encoded
    exact ⟨front, encode more, shape ▸ encoded_form scalar, rfl, more, rfl⟩

theorem may_follow_ground (validator : Utf8Validator) (bytes : List UInt8)
    (ground : validator.remaining = 0) : MayFollow validator bytes ↔ Valid bytes := by
  simp [MayFollow, ground]

theorem may_follow_begun (count least most : UInt8) (bytes : List UInt8) (some : count ≠ 0) :
    MayFollow ⟨count, least, most⟩ bytes ↔ ∃ byte rest, bytes = byte :: rest ∧ isContinuation byte = true ∧
        least ≤ byte ∧ byte ≤ most ∧ Owed (count.toNat - 1) rest := by
  simp [MayFollow, some]

/-- Each lead class of the table owes exactly what `begin` records for it. -/
theorem lead_sound (validator next : Utf8Validator) (byte : UInt8) (rest : List UInt8)
    (ground : validator.remaining = 0) (taken : validator.advance byte = some next)
    (follows : MayFollow next rest) : Valid (byte :: rest) := by
  unfold Utf8Validator.advance at taken
  rw [if_pos ground] at taken
  split at taken
  · rename_i ascii
    obtain rfl := Option.some.inj taken
    exact form_append [byte] rest (Form.one byte ascii)
      ((may_follow_ground validator rest ground).mp follows)
  split at taken
  · rename_i lead
    obtain rfl := Option.some.inj taken
    obtain ⟨b, tail, rfl, -, lowB, highB, valid⟩ :=
      (may_follow_begun 1 _ _ rest (by decide)).mp follows
    exact form_append [byte, b] tail (Form.two byte b lead.1 lead.2 lowB highB) valid
  -- The four three-byte rows share one shape: a bounded second byte and one more owed.
  have three (least most : UInt8) (lowest : 0x80 ≤ least) (highest : most ≤ 0xBF)
      (low : 0xE0 ≤ byte) (high : byte ≤ 0xEF) (overlong : byte = 0xE0 → 0xA0 ≤ least)
      (surrogate : byte = 0xED → most ≤ 0x9F) (follows : MayFollow ⟨2, least, most⟩ rest) :
      Valid (byte :: rest) := by
    obtain ⟨b, tail, rfl, -, lowB, highB, c, tail', rfl, continued, valid⟩ :=
      (may_follow_begun 2 _ _ rest (by decide)).mp follows
    simp only [isContinuation, Bool.and_eq_true, decide_eq_true_eq] at continued
    exact form_append [byte, b, c] tail' (Form.three byte b c low high (UInt8.le_trans lowest lowB)
      (UInt8.le_trans highB highest) (fun same => UInt8.le_trans (overlong same) lowB)
      (fun same => UInt8.le_trans highB (surrogate same)) continued.1 continued.2) valid
  have four (least most : UInt8) (lowest : 0x80 ≤ least) (highest : most ≤ 0xBF)
      (low : 0xF0 ≤ byte) (high : byte ≤ 0xF4) (overlong : byte = 0xF0 → 0x90 ≤ least)
      (large : byte = 0xF4 → most ≤ 0x8F) (follows : MayFollow ⟨3, least, most⟩ rest) :
      Valid (byte :: rest) := by
    obtain ⟨b, tail, rfl, -, lowB, highB, c, tail', rfl, continuedC, d, tail'', rfl,
      continuedD, valid⟩ := (may_follow_begun 3 _ _ rest (by decide)).mp follows
    simp only [isContinuation, Bool.and_eq_true, decide_eq_true_eq] at continuedC continuedD
    exact form_append [byte, b, c, d] tail'' (Form.four byte b c d low high (UInt8.le_trans lowest lowB)
      (UInt8.le_trans highB highest) (fun same => UInt8.le_trans (overlong same) lowB)
      (fun same => UInt8.le_trans highB (large same)) continuedC.1 continuedC.2
      continuedD.1 continuedD.2) valid
  split at taken
  · rename_i lead
    obtain rfl := Option.some.inj taken
    subst lead
    exact three _ _ (by decide) (by decide) (by decide) (by decide) (by decide) (by decide) follows
  split at taken
  · rename_i other lead
    obtain rfl := Option.some.inj taken
    simp only [le_iff_toNat_le, UInt8.reduceToNat] at lead
    refine three _ _ (by decide) (by decide) ?_ ?_ ?_ ?_ follows <;>
      simp only [le_iff_toNat_le, ← UInt8.toNat_inj, UInt8.reduceToNat] <;> omega
  split at taken
  · rename_i lead
    obtain rfl := Option.some.inj taken
    subst lead
    exact three _ _ (by decide) (by decide) (by decide) (by decide) (by decide) (by decide) follows
  split at taken
  · rename_i lead
    obtain rfl := Option.some.inj taken
    subst lead
    exact four _ _ (by decide) (by decide) (by decide) (by decide) (by decide) (by decide) follows
  split at taken
  · rename_i lead
    obtain rfl := Option.some.inj taken
    simp only [le_iff_toNat_le, UInt8.reduceToNat] at lead
    refine four _ _ (by decide) (by decide) ?_ ?_ ?_ ?_ follows <;>
      simp only [le_iff_toNat_le, ← UInt8.toNat_inj, UInt8.reduceToNat] <;> omega
  split at taken
  · rename_i lead
    obtain rfl := Option.some.inj taken
    subst lead
    exact four _ _ (by decide) (by decide) (by decide) (by decide) (by decide) (by decide) follows
  · simp at taken

section
variable (validator : Utf8Validator) (byte : UInt8) (rest : List UInt8)
include validator byte rest

/-- Conversely, the first byte of well-formed text is a lead the validator takes. -/
theorem lead_complete (ground : validator.remaining = 0) (valid : Valid (byte :: rest)) :
    ∃ next, validator.advance byte = some next ∧ MayFollow next rest := by
  obtain ⟨front, tail, form, rfl, after⟩ := valid_cons byte rest valid
  unfold Utf8Validator.advance
  rw [if_pos ground]
  cases form with
  | one _ ascii =>
    rw [if_pos ascii]
    exact ⟨validator, rfl, (may_follow_ground validator tail ground).mpr after⟩
  | two _ b low high lowB highB =>
    simp only [le_iff_toNat_le, UInt8.reduceToNat] at low high
    rw [if_neg (by simp only [le_iff_toNat_le, UInt8.reduceToNat]; omega),
      if_pos (by simp only [le_iff_toNat_le, UInt8.reduceToNat]; omega)]
    refine ⟨_, rfl, (may_follow_begun 1 _ _ _ (by decide)).mpr ?_⟩
    exact ⟨b, tail, rfl, by simp [isContinuation, lowB, highB], lowB, highB, after⟩
  | three _ b c low high lowB highB overlong surrogate lowC highC =>
    have owed : Owed 1 (c :: tail) := ⟨c, tail, rfl, by simp [isContinuation, lowC, highC], after⟩
    have begun (least most : UInt8) (lowest : least ≤ b) (highest : b ≤ most) :
        ∃ next, Utf8Validator.begin 2 least most = some next ∧ MayFollow next ([b, c] ++ tail) :=
      ⟨_, rfl, (may_follow_begun 2 _ _ _ (by decide)).mpr
        ⟨b, c :: tail, rfl, by simp [isContinuation, lowB, highB], lowest, highest, owed⟩⟩
    simp only [le_iff_toNat_le, UInt8.reduceToNat] at low high
    rw [if_neg (by simp only [le_iff_toNat_le, UInt8.reduceToNat]; omega),
      if_neg (by simp only [le_iff_toNat_le, UInt8.reduceToNat]; omega)]
    split
    · exact begun _ _ (overlong ‹_›) highB
    split
    · exact begun _ _ lowB highB
    split
    · exact begun _ _ lowB (surrogate ‹_›)
    · simp only [le_iff_toNat_le, ← UInt8.toNat_inj, UInt8.reduceToNat] at *
      omega
  | four _ b c d low high lowB highB overlong large lowC highC lowD highD =>
    have owed : Owed 2 (c :: d :: tail) :=
      ⟨c, d :: tail, rfl, by simp [isContinuation, lowC, highC],
        d, tail, rfl, by simp [isContinuation, lowD, highD], after⟩
    have begun (least most : UInt8) (lowest : least ≤ b) (highest : b ≤ most) :
        ∃ next, Utf8Validator.begin 3 least most = some next ∧ MayFollow next ([b, c, d] ++ tail) :=
      ⟨_, rfl, (may_follow_begun 3 _ _ _ (by decide)).mpr
        ⟨b, c :: d :: tail, rfl, by simp [isContinuation, lowB, highB], lowest, highest, owed⟩⟩
    have lowNat := UInt8.le_iff_toNat_le.mp low
    have highNat := UInt8.le_iff_toNat_le.mp high
    simp only [UInt8.reduceToNat] at lowNat highNat
    rw [if_neg (by simp only [le_iff_toNat_le, UInt8.reduceToNat]; omega),
      if_neg (by simp only [le_iff_toNat_le, UInt8.reduceToNat]; omega),
      if_neg (by simp only [← UInt8.toNat_inj, UInt8.reduceToNat]; omega),
      if_neg (by simp only [le_iff_toNat_le, UInt8.reduceToNat]; omega),
      if_neg (by simp only [← UInt8.toNat_inj, UInt8.reduceToNat]; omega)]
    split
    · exact begun _ _ (overlong ‹_›) highB
    split
    · exact begun _ _ lowB highB
    split
    · exact begun _ _ lowB (large ‹_›)
    · simp only [le_iff_toNat_le, ← UInt8.toNat_inj, UInt8.reduceToNat] at *
      omega

theorem continuation_step (within : validator.remaining ≠ 0) : MayFollow validator (byte :: rest) ↔
      ∃ next, validator.advance byte = some next ∧ MayFollow next rest := by
  have positive : 0 < validator.remaining.toNat := by
    have := mt UInt8.toNat_inj.mp within
    simp only [UInt8.reduceToNat] at this
    omega
  have fewer : (validator.remaining - 1).toNat = validator.remaining.toNat - 1 :=
    UInt8.toNat_sub_of_le _ _ (UInt8.le_iff_toNat_le.mpr positive)
  -- After one continuation the bounds are the full range, so only the count matters.
  have later : MayFollow ⟨validator.remaining - 1, 0x80, 0xBF⟩ rest ↔
      Owed (validator.remaining.toNat - 1) rest := by
    by_cases last : validator.remaining - 1 = 0
    · rw [← fewer, last]
      rfl
    have more : (validator.remaining - 1).toNat ≠ 0 := by
      simpa [← UInt8.toNat_inj] using last
    rw [may_follow_begun _ _ _ rest last, ← fewer, ← Nat.succ_pred_eq_of_ne_zero more]
    simp only [Owed, isContinuation, Bool.and_eq_true, decide_eq_true_eq, Nat.succ_eq_add_one]
    constructor
    · rintro ⟨b, tail, rfl, continued, -, -, owed⟩
      exact ⟨b, tail, rfl, continued, owed⟩
    · rintro ⟨b, tail, rfl, continued, owed⟩
      exact ⟨b, tail, rfl, continued, continued.1, continued.2, owed⟩
  unfold Utf8Validator.advance
  rw [if_neg within]
  simp only [MayFollow, within, List.cons.injEq]
  constructor
  · rintro ⟨b, tail, ⟨rfl, rfl⟩, continued, low, high, owed⟩
    simp only [isContinuation, Bool.and_eq_true, decide_eq_true_eq] at continued
    exact ⟨_, if_pos ⟨continued, low, high⟩, later.mpr owed⟩
  · rintro ⟨next, taken, follows⟩
    split at taken
    · rename_i bounds
      obtain rfl := Option.some.inj taken
      exact ⟨byte, rest, ⟨rfl, rfl⟩, by simp [isContinuation, bounds.1], bounds.2.1, bounds.2.2,
        later.mp follows⟩
    · simp at taken

theorem follow_step : MayFollow validator (byte :: rest) ↔
      ∃ next, validator.advance byte = some next ∧ MayFollow next rest := by
  by_cases ground : validator.remaining = 0
  · rw [may_follow_ground validator _ ground]
    constructor
    · exact lead_complete validator byte rest ground
    · rintro ⟨next, taken, follows⟩
      exact lead_sound validator next byte rest ground taken follows
  · exact continuation_step validator byte rest ground

end

theorem run_complete_iff (validator : Utf8Validator) (bytes : List UInt8) :
    (∃ final, validator.run bytes = some final ∧ final.isComplete = true) ↔ MayFollow validator bytes := by
  induction bytes generalizing validator with
  | nil =>
    simp only [Utf8Validator.run, Option.some.injEq, exists_eq_left', Utf8Validator.isComplete,
      beq_iff_eq, MayFollow]
    by_cases ground : validator.remaining = 0
    · simp only [ground, ↓reduceIte, true_iff]
      exact ⟨[], rfl⟩
    · simp [ground]
  | cons byte rest ih =>
    rw [follow_step]
    cases taken : validator.advance byte with
    | none => simp [Utf8Validator.run, taken]
    | some next => simp [Utf8Validator.run, taken, ih]

/-- The streaming validator accepts exactly the well-formed byte strings. -/
theorem validator_exact (bytes : List UInt8) :
    (∃ final, ({} : Utf8Validator).run bytes = some final ∧ final.isComplete = true) ↔ Valid bytes := by
  rw [run_complete_iff]
  exact may_follow_ground _ bytes rfl

end Validation

section Geometry

/-- One row that an LF ends: the LF is its last byte and only one, and the separator a CRLF exactly
when a CR of the row stands before it. -/
structure LfRow (source : List UInt8) (record : LineRecord) : Prop where
  terminated : source[record.separatorEndByte - 1]? = some LF
  nonempty : record.startByte < record.separatorEndByte
  interior : ∀ i, record.startByte ≤ i → i + 1 < record.separatorEndByte → source[i]? ≠ some LF
  separated : record.separatorKind ≠ .none
  paired : record.separatorKind = .crLf ↔
    record.startByte + 2 ≤ record.separatorEndByte ∧
      source[record.separatorEndByte - 2]? = some CR

def Tiled (source : List UInt8) : Nat → List LineRecord → Nat → Prop
  | cursor, [], stop => cursor = stop
  | cursor, record :: rest, stop =>
    record.startByte = cursor ∧ LfRow source record ∧
      Tiled source record.separatorEndByte rest stop

structure TerminalRow (source : List UInt8) (record : LineRecord) : Prop where
  ends : record.separatorEndByte = source.length
  bare : record.separatorKind = .none
  interior : ∀ i, record.startByte ≤ i → source[i]? ≠ some LF

def Covers (source : List UInt8) (table : LineRecordTable) : Prop :=
  table.sourceByteLength = source.length ∧
    ∃ rows last, table.records = rows ++ [last] ∧
      Tiled source 0 rows last.startByte ∧ TerminalRow source last

theorem tiled_le (source : List UInt8) (cursor stop : Nat) (rows : List LineRecord)
    (tiled : Tiled source cursor rows stop) : cursor ≤ stop := by
  induction rows generalizing cursor with
  | nil => exact le_of_eq tiled
  | cons record rest ih =>
    have later := ih record.separatorEndByte tiled.2.2
    have grows := tiled.2.1.nonempty
    have start := tiled.1
    omega

theorem row_extends (source extra : List UInt8) (record : LineRecord)
    (bound : record.separatorEndByte ≤ source.length) (row : LfRow source record) :
    LfRow (source ++ extra) record := by
  have grows := row.nonempty
  have keep (i : Nat) (inside : i < record.separatorEndByte) :
      (source ++ extra)[i]? = source[i]? := getElem?_append_left (by omega)
  exact
    { terminated := by rw [keep _ (by omega)]; exact row.terminated
      nonempty := grows
      interior := fun i low high => by rw [keep i (by omega)]; exact row.interior i low high
      separated := row.separated
      paired := by rw [keep _ (by omega)]; exact row.paired }

theorem tiled_extends (source extra : List UInt8) (cursor stop : Nat) (rows : List LineRecord)
    (bound : stop ≤ source.length) (tiled : Tiled source cursor rows stop) :
    Tiled (source ++ extra) cursor rows stop := by
  induction rows generalizing cursor with
  | nil => exact tiled
  | cons record rest ih =>
    have inside := tiled_le source record.separatorEndByte stop rest tiled.2.2
    exact ⟨tiled.1, row_extends source extra record (by omega) tiled.2.1,
      ih record.separatorEndByte tiled.2.2⟩

theorem tiled_append (source : List UInt8) (cursor stop : Nat) (rows : List LineRecord)
    (record : LineRecord) (tiled : Tiled source cursor rows stop)
    (start : record.startByte = stop) (row : LfRow source record) :
    Tiled source cursor (rows ++ [record]) record.separatorEndByte := by
  induction rows generalizing cursor with
  | nil => exact ⟨start.trans tiled.symm, row, rfl⟩
  | cons head rest ih => exact ⟨tiled.1, tiled.2.1, ih head.separatorEndByte tiled.2.2⟩

/-- The scanner after some bytes: finished rows tile up to the open row, which holds no LF, and a CR
is pending exactly when it is that row's last byte. -/
structure Scanned (seen : List UInt8) (scanner : Scanner) : Prop where
  consumed : scanner.offset = seen.length
  opened : scanner.recordStart ≤ seen.length
  tiled : Tiled seen 0 scanner.records scanner.recordStart
  interior : ∀ i, scanner.recordStart ≤ i → seen[i]? ≠ some LF
  pending : ∀ crAt, scanner.pendingCrAt = some crAt ↔
    scanner.recordStart ≤ crAt ∧ crAt + 1 = seen.length ∧ seen[crAt]? = some CR

theorem scanned_start : Scanned [] {} where
  consumed := rfl
  opened := le_rfl
  tiled := rfl
  interior := by simp
  pending := by simp

theorem checked_add_fits (left : Nat) (fits : left + 1 ≤ usizeMax) : checkedAdd left 1 = .ok (left + 1) := by
  simp [checkedAdd, fits]

/-- Ending the open row at an LF, whichever separator it carries. -/
theorem end_row_scanned (seen : List UInt8) (scanner : Scanner) (contentEnd : Nat)
    (kind : SeparatorKind) (fits : seen.length + 1 ≤ usizeMax) (scanned : Scanned seen scanner)
    (content : scanner.recordStart ≤ contentEnd) (width : contentEnd + kind.byteLen = seen.length + 1)
    (separated : kind ≠ .none)
    (paired : kind = .crLf ↔ scanner.recordStart + 1 ≤ seen.length ∧ seen[seen.length - 1]? = some CR) :
    ∃ next, scanner.endRow contentEnd kind = .ok next ∧ Scanned (seen ++ [LF]) next ∧
      next.utf8 = scanner.utf8 := by
  have ordered : scanner.recordStart ≤ contentEnd ∧ contentEnd ≤ seen.length + 1 :=
    ⟨content, by omega⟩
  have exact : seen.length + 1 - contentEnd = kind.byteLen := by omega
  have record : recordOrOverflow scanner.recordStart contentEnd (seen.length + 1) kind =
      .ok ⟨scanner.recordStart, contentEnd, seen.length + 1, kind, ordered, exact⟩ := by
    simp [recordOrOverflow, LineRecord.new, ordered, exact]
  have row : LfRow (seen ++ [LF])
      ⟨scanner.recordStart, contentEnd, seen.length + 1, kind, ordered, exact⟩ := by
    have opened := scanned.opened
    refine ⟨by simp, by simp only; omega, ?_, separated, ?_⟩
    · intro i low high
      rw [getElem?_append_left (by simp only at high; omega)]
      exact scanned.interior i low
    · rw [paired]
      by_cases vacant : seen.length = 0
      · simp only
        omega
      rw [show seen.length + 1 - 2 = seen.length - 1 by omega, getElem?_append_left (by omega)]
      simp only
      constructor <;> rintro ⟨low, cr⟩ <;> exact ⟨by omega, cr⟩
  refine ⟨{ scanner with
    pendingCrAt := none, recordStart := seen.length + 1, offset := seen.length + 1,
    records := scanner.records ++
      [⟨scanner.recordStart, contentEnd, seen.length + 1, kind, ordered, exact⟩] }, ?_, ?_, rfl⟩
  · simp [Scanner.endRow, scanned.consumed, checked_add_fits _ fits, bind, Except.bind, record,
      pure, Except.pure]
  · exact
      { consumed := by simp
        opened := by simp
        tiled := tiled_append _ 0 scanner.recordStart _ _
          (tiled_extends seen [LF] 0 _ _ scanned.opened scanned.tiled) rfl row
        interior := fun i low => by
          rw [getElem?_eq_none (by simpa using low)]
          simp
        pending := fun crAt => by
          simp only [length_append, length_singleton, reduceCtorEq, false_iff]
          omega }

theorem push_byte_scanned (seen : List UInt8) (scanner : Scanner) (byte : UInt8)
    (fits : seen.length + 1 ≤ usizeMax) (scanned : Scanned seen scanner) :
    ∃ next, scanner.pushByte byte = .ok next ∧ Scanned (seen ++ [byte]) next ∧
      next.utf8 = scanner.utf8 := by
  have opened := scanned.opened
  unfold Scanner.pushByte
  split
  · rename_i lf
    subst lf
    cases waiting : scanner.pendingCrAt with
    | some crAt =>
      obtain ⟨inside, last, cr⟩ := (scanned.pending crAt).mp waiting
      have back : seen.length - 1 = crAt := by omega
      refine end_row_scanned seen scanner crAt .crLf fits scanned inside ?_ (by decide) ?_
      · simp only [SeparatorKind.byteLen]
        omega
      · rw [back]
        exact ⟨fun _ => ⟨by omega, cr⟩, fun _ => rfl⟩
    | none =>
      refine end_row_scanned seen scanner scanner.offset .lf fits scanned ?_ ?_ (by decide) ?_
      · rw [scanned.consumed]
        exact opened
      · simp only [SeparatorKind.byteLen, scanned.consumed]
      · simp only [reduceCtorEq, false_iff, not_and]
        intro inside cr
        have waits := (scanned.pending (seen.length - 1)).mpr ⟨by omega, by omega, cr⟩
        simp [waiting] at waits
  · rename_i notLf
    refine ⟨{ scanner with
      pendingCrAt := if byte = CR then some scanner.offset else none
      offset := seen.length + 1 }, ?_, ?_, rfl⟩
    · simp [scanned.consumed, checked_add_fits _ fits, bind, Except.bind, pure, Except.pure]
    · exact
        { consumed := by simp
          opened := by simp only [length_append, length_singleton]; omega
          tiled := tiled_extends seen [byte] 0 _ _ opened scanned.tiled
          interior := fun i low => by
            by_cases inside : i < seen.length
            · rw [getElem?_append_left inside]
              exact scanned.interior i low
            by_cases last : i = seen.length
            · simpa [last] using notLf
            · rw [getElem?_eq_none (by simp; omega)]
              simp
          pending := fun crAt => by
            simp only [length_append, length_singleton, scanned.consumed]
            constructor
            · intro waits
              split at waits
              · rename_i cr
                obtain rfl := Option.some.inj waits
                exact ⟨opened, rfl, by simp [cr]⟩
              · simp at waits
            · rintro ⟨-, last, cr⟩
              have back : crAt = seen.length := by omega
              subst back
              have isCr : byte = CR := by simpa using cr
              simp [isCr] }

theorem push_bytes_scanned (seen bytes : List UInt8) (scanner : Scanner)
    (fits : (seen ++ bytes).length ≤ usizeMax) (scanned : Scanned seen scanner) :
    ∃ next, scanner.pushBytes bytes = .ok next ∧ Scanned (seen ++ bytes) next := by
  induction bytes generalizing seen scanner with
  | nil => exact ⟨scanner, rfl, by simpa using scanned⟩
  | cons byte rest ih =>
    simp only [length_append, length_cons] at fits
    obtain ⟨next, pushed, after, -⟩ :=
      push_byte_scanned seen scanner byte (by omega) scanned
    obtain ⟨last, done, final⟩ := ih (seen ++ [byte]) next (by simp; omega) after
    refine ⟨last, ?_, by simpa using final⟩
    simp [Scanner.pushBytes, pushed, done, bind, Except.bind]

/-- Row geometry ignores the validator: both scans produce the same records. -/
theorem push_byte_utf8 (scanner : Scanner) (byte : UInt8) (utf8 : Utf8Validator) :
    ({ scanner with utf8 } : Scanner).pushByte byte =
      (scanner.pushByte byte).map fun next => { next with utf8 } := by
  unfold Scanner.pushByte Scanner.endRow
  split
  · cases scanner.pendingCrAt with
    | some crAt =>
      simp only [bind, Except.bind]
      cases checkedAdd scanner.offset 1 with
      | error problem => rfl
      | ok separatorEnd =>
        simp only
        cases recordOrOverflow scanner.recordStart crAt separatorEnd .crLf <;> rfl
    | none =>
      simp only [bind, Except.bind]
      cases checkedAdd scanner.offset 1 with
      | error problem => rfl
      | ok separatorEnd =>
        simp only
        cases recordOrOverflow scanner.recordStart scanner.offset separatorEnd .lf <;> rfl
  · simp only [bind, Except.bind]
    cases checkedAdd scanner.offset 1 <;> rfl

theorem push_bytes_utf8 (bytes : List UInt8) (scanner : Scanner) (utf8 : Utf8Validator) :
    ({ scanner with utf8 } : Scanner).pushBytes bytes =
      (scanner.pushBytes bytes).map fun next => { next with utf8 } := by
  induction bytes generalizing scanner with
  | nil => rfl
  | cons byte rest ih =>
    simp only [Scanner.pushBytes, push_byte_utf8, bind, Except.bind]
    cases scanner.pushByte byte with
    | error problem => rfl
    | ok next => exact ih next

/-- Feeding bytes through the validator: the plain scan with the validator's final state, or a
refusal. -/
def validated (scanner : Scanner) (bytes : List UInt8) : Except SourceLineError Scanner :=
  match scanner.utf8.run bytes with
  | none => .error .invalidUtf8
  | some utf8 => (scanner.pushBytes bytes).map fun next => { next with utf8 }

theorem push_utf8_chunk_exact (seen chunk : List UInt8) (scanner : Scanner)
    (fits : (seen ++ chunk).length ≤ usizeMax) (scanned : Scanned seen scanner) :
    scanner.pushUtf8Chunk chunk = validated scanner chunk := by
  induction chunk generalizing seen scanner with
  | nil => rfl
  | cons byte rest ih =>
    simp only [length_append, length_cons] at fits
    obtain ⟨next, pushed, after, -⟩ := push_byte_scanned seen scanner byte (by omega) scanned
    cases taken : scanner.utf8.advance byte with
    | none => simp [Scanner.pushUtf8Chunk, validated, Utf8Validator.run, taken]
    | some utf8 =>
      have tail := ih (seen ++ [byte]) { next with utf8 } (by simp; omega)
        ⟨after.consumed, after.opened, after.tiled, after.interior, after.pending⟩
      have first : scanner.pushUtf8Chunk (byte :: rest) =
          ({ next with utf8 } : Scanner).pushUtf8Chunk rest := by
        simp [Scanner.pushUtf8Chunk, taken, push_byte_utf8, pushed, Except.map, bind, Except.bind]
      rw [first, tail]
      simp only [validated, Utf8Validator.run, taken, push_bytes_utf8]
      cases utf8.run rest with
      | none => rfl
      | some final =>
        simp only [Scanner.pushBytes, pushed, bind, Except.bind]
        cases next.pushBytes rest <;> rfl

theorem run_append (validator : Utf8Validator) (left right : List UInt8) :
    validator.run (left ++ right) = (validator.run left).bind (·.run right) := by
  induction left generalizing validator with
  | nil => rfl
  | cons byte rest ih =>
    simp only [cons_append, Utf8Validator.run]
    cases validator.advance byte with
    | none => rfl
    | some next => exact ih next

theorem push_bytes_append (scanner : Scanner) (left right : List UInt8) :
    scanner.pushBytes (left ++ right) = (scanner.pushBytes left).bind (·.pushBytes right) := by
  induction left generalizing scanner with
  | nil => rfl
  | cons byte rest ih =>
    simp only [cons_append, Scanner.pushBytes, Except.bind]
    cases scanner.pushByte byte with
    | error problem => rfl
    | ok next => exact ih next

/-- Chunk ends leave no trace: the chunks scan as their concatenation does. -/
theorem push_chunks_exact (chunks : List (List UInt8)) (seen : List UInt8) (scanner : Scanner)
    (fits : (seen ++ chunks.flatten).length ≤ usizeMax) (scanned : Scanned seen scanner) :
    scanner.pushChunks chunks = validated scanner chunks.flatten := by
  induction chunks generalizing seen scanner with
  | nil => rfl
  | cons chunk rest ih =>
    simp only [flatten_cons, length_append] at fits
    have here := push_utf8_chunk_exact seen chunk scanner (by simp; omega) scanned
    obtain ⟨next, pushed, after⟩ :=
      push_bytes_scanned seen chunk scanner (by simp; omega) scanned
    simp only [Scanner.pushChunks, here, validated, flatten_cons, run_append,
      push_bytes_append, bind, Except.bind, pushed]
    cases scanner.utf8.run chunk with
    | none => rfl
    | some utf8 =>
      have tail := ih (seen ++ chunk) { next with utf8 } (by simp only [length_append]; omega)
        ⟨after.consumed, after.opened, after.tiled, after.interior, after.pending⟩
      simp only [Except.map, Option.bind, tail, validated, push_bytes_utf8]
      cases utf8.run rest.flatten with
      | none => rfl
      | some final =>
        cases next.pushBytes rest.flatten <;> rfl

section
variable (source : List UInt8) (rows : List LineRecord) (last : LineRecord) (index cursor : Nat)
    (tiled : Tiled source cursor rows last.startByte)
include source rows last index cursor tiled

theorem check_covered_tiled : checkCovered index cursor (rows ++ [last]) = .ok last.separatorEndByte := by
  induction rows generalizing index cursor with
  | nil =>
    have start : last.startByte = cursor := tiled.symm
    simp [checkCovered, start]
  | cons record rest ih =>
    simp only [cons_append, checkCovered, tiled.1, ne_eq, not_true_eq_false]
    exact ih (index + 1) record.separatorEndByte tiled.2.2

theorem check_separators_tiled
    (bare : last.separatorKind = .none) : checkSeparators index (rows ++ [last]) = .ok () := by
  induction rows generalizing index cursor with
  | nil => simp [checkSeparators, bare]
  | cons record rest ih =>
    obtain ⟨next, more, shape⟩ : ∃ next more, rest ++ [last] = next :: more := by
      cases rest <;> simp
    have tail := ih (index + 1) record.separatorEndByte tiled.2.2
    rw [shape] at tail
    rw [cons_append, shape, checkSeparators, tail]
    cases kind : record.separatorKind with
    | none => exact absurd kind tiled.2.1.separated
    | lf => rfl
    | crLf => rfl

end

/-- `finish` closes the open row, and `tryFromRecords` accepts the result. -/
theorem finish_covers (source : List UInt8) (scanner : Scanner) (scanned : Scanned source scanner) :
    ∃ table, scanner.finish = .ok table ∧ Covers source table ∧
      tryFromRecords table.sourceByteLength table.records = .ok table := by
  have opened := scanned.opened
  have ordered : scanner.recordStart ≤ source.length ∧ source.length ≤ source.length :=
    ⟨opened, le_rfl⟩
  have width : source.length - source.length = SeparatorKind.none.byteLen := by
    simp [SeparatorKind.byteLen]
  obtain ⟨last, same⟩ : ∃ last : LineRecord,
      last = ⟨scanner.recordStart, source.length, source.length, .none, ordered, width⟩ := ⟨_, rfl⟩
  have record : LineRecord.new scanner.recordStart source.length source.length .none = .ok last := by
    simp [LineRecord.new, opened, SeparatorKind.byteLen, same]
  have start : last.startByte = scanner.recordStart := by rw [same]
  have stop : last.separatorEndByte = source.length := by rw [same]
  have bare : last.separatorKind = .none := by rw [same]
  have tiled : Tiled source 0 scanner.records last.startByte := start ▸ scanned.tiled
  have covered := check_covered_tiled source scanner.records last 0 0 tiled
  have separators := check_separators_tiled source scanner.records last 0 0 tiled bare
  have accepted : tryFromRecords source.length (scanner.records ++ [last]) =
      .ok ⟨source.length, scanner.records ++ [last]⟩ := by
    simp [tryFromRecords, covered, separators, stop, bind, Except.bind, pure, Except.pure]
  refine ⟨⟨source.length, scanner.records ++ [last]⟩, ?_, ?_, accepted⟩
  · simp [Scanner.finish, scanned.consumed, record, accepted, bind, Except.bind]
  · exact ⟨rfl, scanner.records, last, rfl, tiled, stop, bare, start ▸ scanned.interior⟩

end Geometry

section Lookup

def LineRecord.Contains (record : LineRecord) (byteOffset : Nat) : Prop :=
  record.startByte ≤ byteOffset ∧ byteOffset < record.separatorEndByte

section
variable (source : List UInt8) (rows : List LineRecord)
include source rows

theorem tiled_starts (last : LineRecord) (cursor : Nat) (tiled : Tiled source cursor rows last.startByte) :
    ∀ record ∈ rows ++ [last], cursor ≤ record.startByte := by
  induction rows generalizing cursor with
  | nil =>
    intro record member
    obtain rfl := mem_singleton.mp member
    exact le_of_eq tiled
  | cons head rest ih =>
    intro record member
    have start := tiled.1
    rcases mem_cons.mp member with rfl | later
    · exact le_of_eq start.symm
    · have after := ih head.separatorEndByte tiled.2.2 record later
      have grows := tiled.2.1.nonempty
      omega

theorem tiled_row_end (cursor stop : Nat) (tiled : Tiled source cursor rows stop) :
    ∀ record ∈ rows, record.separatorEndByte ≤ stop := by
  induction rows generalizing cursor with
  | nil => simp
  | cons head rest ih =>
    intro record member
    rcases mem_cons.mp member with rfl | later
    · exact tiled_le source record.separatorEndByte stop rest tiled.2.2
    · exact ih head.separatorEndByte tiled.2.2 record later

/-- The partition point lies just behind a row that starts at or before the offset and, unless
terminal, ends after it. -/
theorem partition_tiled (last : LineRecord)
    (cursor byteOffset : Nat) (tiled : Tiled source cursor rows last.startByte)
    (reached : cursor ≤ byteOffset) : ∃ line record,
      partitionPoint (fun row => decide (row.startByte ≤ byteOffset)) (rows ++ [last]) = line + 1 ∧
      (rows ++ [last])[line]? = some record ∧ record.startByte ≤ byteOffset ∧
      (byteOffset < record.separatorEndByte ∨ line = rows.length ∧ record = last) := by
  induction rows generalizing cursor with
  | nil =>
    have start : cursor = last.startByte := tiled
    exact ⟨0, last, by simp [partitionPoint, ← start, reached], rfl, by omega, .inr ⟨rfl, rfl⟩⟩
  | cons head rest ih =>
    have start := tiled.1
    by_cases inside : byteOffset < head.separatorEndByte
    · refine ⟨0, head, ?_, rfl, by omega, .inl inside⟩
      have later := tiled_starts source rest last head.separatorEndByte tiled.2.2
      have stops : (rest ++ [last]).takeWhile (fun row => decide (row.startByte ≤ byteOffset)) = [] := by
        cases shape : rest ++ [last] with
        | nil => rfl
        | cons next more =>
          have bound := later next (by simp [shape])
          simp only [takeWhile_cons, ite_eq_right_iff, decide_eq_true_eq]
          omega
      simp [partitionPoint, start, reached, stops]
    · obtain ⟨line, record, point, found, low, high⟩ :=
        ih head.separatorEndByte tiled.2.2 (by omega)
      refine ⟨line + 1, record, ?_, by simpa using found, low, ?_⟩
      · simp only [partitionPoint] at point
        simp [partitionPoint, start, reached, point]
      · rcases high with high | ⟨here, terminal⟩
        · exact .inl high
        · exact .inr ⟨by simp [here], terminal⟩

/-- Rows laid end to end do not overlap. -/
theorem tiled_contains_unique (last : LineRecord) (cursor byteOffset i j : Nat) (left right : LineRecord)
    (tiled : Tiled source cursor rows last.startByte)
    (atI : (rows ++ [last])[i]? = some left) (atJ : (rows ++ [last])[j]? = some right)
    (inLeft : left.Contains byteOffset) (inRight : right.Contains byteOffset) : i = j := by
  induction rows generalizing cursor i j with
  | nil =>
    have first := (List.getElem?_eq_some_iff.mp atI).1
    have second := (List.getElem?_eq_some_iff.mp atJ).1
    simp only [nil_append, length_singleton] at first second
    omega
  | cons head rest ih =>
    have later := tiled_starts source rest last head.separatorEndByte tiled.2.2
    unfold LineRecord.Contains at inLeft inRight
    cases i with
    | zero =>
      obtain rfl : head = left := by simpa using atI
      cases j with
      | zero => rfl
      | succ j =>
        have bound := later right (mem_of_getElem? atJ)
        omega
    | succ i =>
      cases j with
      | zero =>
        obtain rfl : head = right := by simpa using atJ
        have bound := later left (mem_of_getElem? atI)
        omega
      | succ j => rw [ih head.separatorEndByte i j tiled.2.2 atI atJ]

end

theorem line_index_contains (source : List UInt8) (table : LineRecordTable) (byteOffset : Nat)
    (covers : Covers source table) (inside : byteOffset < source.length) :
    ∃ line record, lineIndexAtByte table byteOffset = some line ∧
      table.records[line]? = some record ∧ record.Contains byteOffset ∧
      ∀ other row, table.records[other]? = some row → row.Contains byteOffset → other = line := by
  obtain ⟨total, rows, last, shape, tiled, terminal⟩ := covers
  obtain ⟨line, record, point, found, low, high⟩ :=
    partition_tiled source rows last 0 byteOffset tiled (Nat.zero_le _)
  have contains : record.Contains byteOffset := by
    rcases high with high | ⟨-, rfl⟩
    · exact ⟨low, high⟩
    · exact ⟨low, by rw [terminal.ends]; exact inside⟩
  refine ⟨line, record, ?_, by rw [shape]; exact found, contains, ?_⟩
  · rw [lineIndexAtByte, if_neg (by omega), shape, point]
    rfl
  · intro other row located holds
    rw [shape] at located
    exact tiled_contains_unique source rows last 0 byteOffset other line row record tiled located
      found holds contains

theorem line_index_end (source : List UInt8) (table : LineRecordTable) (covers : Covers source table) :
    lineIndexAtByte table source.length = some (table.records.length - 1) := by
  obtain ⟨total, rows, last, shape, tiled, terminal⟩ := covers
  obtain ⟨line, record, point, found, low, high⟩ :=
    partition_tiled source rows last 0 source.length tiled (Nat.zero_le _)
  have final : line = rows.length := by
    rcases high with high | ⟨here, -⟩
    · by_contra short
      have index := (List.getElem?_eq_some_iff.mp found).1
      simp only [length_append, length_singleton] at index
      rw [getElem?_append_left (by omega)] at found
      have earlier := tiled_row_end source rows 0 _ tiled record (mem_of_getElem? found)
      have stop := last.ordered
      rw [terminal.ends] at stop
      omega
    · exact here
  rw [lineIndexAtByte, if_neg (by omega), shape, point, final]
  simp

end Lookup

/-- On valid bytes the scan of any chunk partition is the contiguous scan. -/
theorem chunks_scan_valid (chunks : List (List UInt8)) (text : List Char)
    (fits : chunks.flatten.length ≤ usizeMax) (encoded : encode text = chunks.flatten) :
    ∃ table, fromChunksUtf8 chunks = .ok table ∧ fromStr text = .ok table ∧ Covers chunks.flatten table ∧
      tryFromRecords table.sourceByteLength table.records = .ok table := by
  obtain ⟨scanner, pushed, scanned⟩ :=
    push_bytes_scanned [] chunks.flatten {} (by simpa only [nil_append] using fits) scanned_start
  obtain ⟨utf8, ran, complete⟩ := (validator_exact chunks.flatten).mpr ⟨text, encoded⟩
  obtain ⟨table, finished, covers, accepted⟩ := finish_covers chunks.flatten scanner scanned
  have streamed := push_chunks_exact chunks [] {} (by simpa only [nil_append] using fits) scanned_start
  rw [validated, ran, pushed] at streamed
  refine ⟨table, ?_, ?_, covers, accepted⟩
  · have ends : ({ scanner with utf8 } : Scanner).finish = .ok table := finished
    simp [fromChunksUtf8, streamed, Except.map, bind, Except.bind, complete, ends]
  · simp [fromStr, encoded, pushed, finished, bind, Except.bind]

theorem chunks_scan_invalid (chunks : List (List UInt8))
    (fits : chunks.flatten.length ≤ usizeMax) (invalid : ¬ Valid chunks.flatten) :
    fromChunksUtf8 chunks = .error .invalidUtf8 := by
  obtain ⟨scanner, pushed, -⟩ :=
    push_bytes_scanned [] chunks.flatten {} (by simpa only [nil_append] using fits) scanned_start
  have streamed := push_chunks_exact chunks [] {} (by simpa only [nil_append] using fits) scanned_start
  rw [validated, pushed] at streamed
  cases ran : ({} : Scanner).utf8.run chunks.flatten with
  | none =>
    rw [ran] at streamed
    simp [fromChunksUtf8, streamed, bind, Except.bind]
  | some utf8 =>
    rw [ran] at streamed
    have partway : utf8.isComplete = false := by
      cases complete : utf8.isComplete with
      | false => rfl
      | true => exact absurd ((validator_exact chunks.flatten).mp ⟨utf8, ran, complete⟩) invalid
    simp [fromChunksUtf8, streamed, Except.map, bind, Except.bind, partway, throw, throwThe,
      MonadExceptOf.throw]

/-- Wherever the source is cut, the scan accepts exactly the valid UTF-8 sources, its table is the
contiguous one, its rows tile the source between LFs, and every byte lies in exactly the row the
lookup names. -/
theorem from_chunks_utf8_exact (chunks : List (List UInt8))
    (fits : chunks.flatten.length ≤ usizeMax) :
    ((∃ table, fromChunksUtf8 chunks = .ok table) ↔ Valid chunks.flatten) ∧
    (¬ Valid chunks.flatten → fromChunksUtf8 chunks = .error .invalidUtf8) ∧
    ∀ table, fromChunksUtf8 chunks = .ok table →
      (∀ text, encode text = chunks.flatten → fromStr text = .ok table) ∧
      Covers chunks.flatten table ∧
      tryFromRecords table.sourceByteLength table.records = .ok table ∧
      (∀ byteOffset, byteOffset < chunks.flatten.length →
        ∃ line record, lineIndexAtByte table byteOffset = some line ∧
          table.records[line]? = some record ∧ record.Contains byteOffset ∧
          ∀ other row, table.records[other]? = some row → row.Contains byteOffset →
            other = line) ∧
      lineIndexAtByte table chunks.flatten.length = some (table.records.length - 1) ∧
      (∀ byteOffset, chunks.flatten.length < byteOffset →
        lineIndexAtByte table byteOffset = none) := by
  have refused := chunks_scan_invalid chunks fits
  have accepts : (∃ table, fromChunksUtf8 chunks = .ok table) ↔ Valid chunks.flatten := by
    constructor
    · rintro ⟨table, scanned⟩
      by_contra invalid
      rw [refused invalid] at scanned
      simp at scanned
    · rintro ⟨text, encoded⟩
      obtain ⟨table, scanned, -⟩ := chunks_scan_valid chunks text fits encoded
      exact ⟨table, scanned⟩
  refine ⟨accepts, refused, ?_⟩
  intro table scanned
  obtain ⟨text, encoded⟩ := accepts.mp ⟨table, scanned⟩
  obtain ⟨same, rescanned, contiguous, covers, accepted⟩ := chunks_scan_valid chunks text fits encoded
  obtain rfl : table = same := by
    rw [scanned] at rescanned
    exact Except.ok.inj rescanned
  refine ⟨?_, covers, accepted, fun byteOffset => line_index_contains _ table byteOffset covers,
    line_index_end _ table covers, ?_⟩
  · intro other encodedToo
    rw [encode_injective (encodedToo.trans encoded.symm)]
    exact contiguous
  · intro byteOffset beyond
    rw [lineIndexAtByte, covers.1, if_pos beyond]

-- A CRLF pair cut in two still ends one row.
theorem from_chunks_utf8_split_crlf :
    (∃ table, fromChunksUtf8 [[0x61, CR], [], [LF, 0x62]] = .ok table) ∧
      Valid [0x61, CR, LF, 0x62] := by
  have exact := (from_chunks_utf8_exact [[0x61, CR], [], [LF, 0x62]] (by decide)).1
  have valid : Valid [0x61, CR, LF, 0x62] := ⟨['a', '\r', '\n', 'b'], by decide⟩
  exact ⟨exact.mpr valid, valid⟩

end PerlLsp.SourceLines
