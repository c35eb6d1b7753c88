import Mathlib.Data.List.TakeWhile
import PerlLsp.TextLines

/-! The strict wire conversions of perl-position-tracking/src/strict.rs. The line
scan walks bytes and ends a line at LF, CR or CRLF; its line counter and the
running code-unit count are checked `u32` additions. A source is a text, so the
bytes scanned are its UTF-8 encoding. -/
namespace PerlLsp.Strict
open Utf8 TextLines List

structure WirePosition where
  line : UInt32
  character : UInt32
  deriving DecidableEq, Repr

structure WireRange where
  start : WirePosition
  stop : WirePosition
  deriving DecidableEq, Repr

inductive PositionEncoding where
  | utf8
  | utf16
  deriving DecidableEq, Repr

def PositionEncoding.codeUnits (encoding : PositionEncoding) (scalar : Char) : Nat :=
  match encoding with
  | .utf8 => scalar.utf8Size
  | .utf16 => lenUtf16 scalar

inductive PositionMappingDisposition where
  | exact
  | lineEndNormalized
  | invalidLine
  | invalidCodeUnitBoundary
  | invalidRangeOrder
  | invalidNewlineBoundary
  | overflowOrResourceBoundary
  | instrumentFailure
  deriving DecidableEq, Repr

def PositionMappingDisposition.admitsIncomingMutation : PositionMappingDisposition → Bool
  | .exact | .lineEndNormalized => true
  | _ => false

structure PositionMapping where
  requested : WirePosition
  normalized : Option WirePosition
  byteOffset : Option Nat
  charOffset : Option Nat
  encoding : PositionEncoding
  disposition : PositionMappingDisposition
  deriving DecidableEq, Repr

structure RangeMapping where
  start : PositionMapping
  stop : PositionMapping
  disposition : PositionMappingDisposition

def RangeMapping.byteRange (mapping : RangeMapping) : Option (Nat × Nat) :=
  match mapping.start.byteOffset, mapping.stop.byteOffset with
  | some start, some stop =>
    if mapping.disposition.admitsIncomingMutation then some (start, stop) else none
  | _, _ => none

structure BytePositionMapping where
  byteOffset : Nat
  charOffset : Option Nat
  wirePosition : Option WirePosition
  encoding : PositionEncoding
  disposition : PositionMappingDisposition
  deriving DecidableEq, Repr

structure LineBounds where
  line : UInt32
  start : Nat
  contentEnd : Nat
  deriving DecidableEq

inductive ByteLineLookup where
  | content (bounds : LineBounds)
  | newlineInterior
  | outOfBounds
  | overflow

structure ScannedLine where
  bounds : LineBounds
  separatorEnd : Nat

structure LineScan where
  bytes : List UInt8
  line : UInt32 := 0
  start : Nat := 0
  index : Nat := 0
  exhausted : Bool := false
  overflowed : Bool := false

def checkedAdd (left : UInt32) (right : Nat) : Option UInt32 :=
  if left.toNat + right < 2 ^ 32 then some (UInt32.ofNat (left.toNat + right)) else none

def breaksByte (byte : UInt8) : Bool := byte == 0x0D || byte == 0x0A

def separatorEndAt (contentEnd : Nat) : List UInt8 → Nat
  | [] => contentEnd
  | byte :: rest =>
    if byte = 0x0D ∧ rest.head? = some 0x0A then contentEnd + 2 else contentEnd + 1

def LineScan.nextLine (scan : LineScan) : Option (ScannedLine × LineScan) :=
  if scan.exhausted then none
  else
    let contentEnd :=
      scan.index + ((scan.bytes.drop scan.index).takeWhile fun byte => !breaksByte byte).length
    let remaining := scan.bytes.drop contentEnd
    let separatorEnd := separatorEndAt contentEnd remaining
    let bounds : LineBounds := { line := scan.line, start := scan.start, contentEnd }
    let next :=
      if remaining.isEmpty then { scan with exhausted := true }
      else
        match checkedAdd scan.line 1 with
        | some line => { scan with line, start := separatorEnd, index := separatorEnd }
        | none => { scan with exhausted := true, overflowed := true }
    some ({ bounds, separatorEnd }, next)

-- Bytes a scan can still advance over, and one more until it is exhausted.
def LineScan.remaining (scan : LineScan) : Nat :=
  if scan.exhausted then 0 else scan.bytes.length - scan.index + 1

theorem separator_end_grows (contentEnd : Nat) (byte : UInt8) (rest : List UInt8) :
    contentEnd < separatorEndAt contentEnd (byte :: rest) := by
  rw [separatorEndAt]
  split <;> omega

theorem next_line_shrinks (scan next : LineScan) (line : ScannedLine)
    (found : scan.nextLine = some (line, next)) : next.remaining < scan.remaining := by
  unfold LineScan.nextLine at found
  split at found
  · simp at found
  rename_i open_
  obtain ⟨-, rfl⟩ := Prod.mk.inj (Option.some.inj found)
  generalize ((scan.bytes.drop scan.index).takeWhile fun byte => !breaksByte byte).length = width
  cases behind : scan.bytes.drop (scan.index + width) with
  | nil => simp [LineScan.remaining, open_]
  | cons byte rest =>
    have inside := congrArg List.length behind
    rw [length_drop, length_cons] at inside
    have grows := separator_end_grows (scan.index + width) byte rest
    cases checkedAdd scan.line 1 with
    | none => simp [LineScan.remaining, open_]
    | some line =>
      simp only [LineScan.remaining, open_, isEmpty_cons, Bool.false_eq_true, ↓reduceIte]
      omega

/-- The loop of `line_bounds`. -/
def lineBoundsFrom (scan : LineScan) (targetLine : UInt32) : Option LineBounds :=
  match found : scan.nextLine with
  | none => none
  | some (line, next) =>
    have := next_line_shrinks scan next line found
    if line.bounds.line = targetLine then some line.bounds else lineBoundsFrom next targetLine
termination_by scan.remaining

def lineBounds (source : List Char) (targetLine : UInt32) : Option LineBounds :=
  lineBoundsFrom { bytes := encode source } targetLine

/-- The loop of `lookup_byte_line`. -/
def lookupByteLineFrom (scan : LineScan) (targetByte : Nat) : ByteLineLookup :=
  match found : scan.nextLine with
  | none => if scan.overflowed then .overflow else .outOfBounds
  | some (line, next) =>
    have := next_line_shrinks scan next line found
    if line.bounds.start ≤ targetByte ∧ targetByte ≤ line.bounds.contentEnd then
      .content line.bounds
    else if line.bounds.contentEnd < targetByte ∧ targetByte < line.separatorEnd then
      .newlineInterior
    else lookupByteLineFrom next targetByte
termination_by scan.remaining

def lookupByteLine (source : List Char) (targetByte : Nat) : ByteLineLookup :=
  if size source < targetByte then .outOfBounds
  else lookupByteLineFrom { bytes := encode source } targetByte

def invalidWireMapping (requested : WirePosition) (encoding : PositionEncoding)
    (disposition : PositionMappingDisposition) : PositionMapping :=
  { requested, normalized := none, byteOffset := none, charOffset := none, encoding, disposition }

def mappedWirePosition (source : List Char) (requested normalized : WirePosition)
    (byteOffset : Nat) (encoding : PositionEncoding) (disposition : PositionMappingDisposition) :
    PositionMapping :=
  let charOffset := (slice source 0 byteOffset).map List.length
  { requested
    normalized := charOffset.map fun _ => normalized
    byteOffset := charOffset.map fun _ => byteOffset
    charOffset
    encoding
    disposition := if charOffset.isSome then disposition else .instrumentFailure }

def invalidByteMapping (byteOffset : Nat) (encoding : PositionEncoding)
    (disposition : PositionMappingDisposition) : BytePositionMapping :=
  { byteOffset, charOffset := none, wirePosition := none, encoding, disposition }

/-- The loop of `wire_position_to_byte` over the line's scalars, and what
follows it. -/
def wireWalk (source : List Char) (position : WirePosition) (encoding : PositionEncoding)
    (bounds : LineBounds) : UInt32 → Nat → List Char → PositionMapping
  | codeUnits, _, [] =>
    mappedWirePosition source position { line := position.line, character := codeUnits }
      bounds.contentEnd encoding
      (if position.character = codeUnits then .exact else .lineEndNormalized)
  | codeUnits, lineBytes, scalar :: rest =>
    if codeUnits = position.character then
      mappedWirePosition source position position (bounds.start + lineBytes) encoding .exact
    else
      match checkedAdd codeUnits (encoding.codeUnits scalar) with
      | none => invalidWireMapping position encoding .overflowOrResourceBoundary
      | some nextUnits =>
        if position.character < nextUnits then
          invalidWireMapping position encoding .invalidCodeUnitBoundary
        else wireWalk source position encoding bounds nextUnits (lineBytes + scalar.utf8Size) rest

def wirePositionToByte (source : List Char) (position : WirePosition)
    (encoding : PositionEncoding) : PositionMapping :=
  match lineBounds source position.line with
  | none => invalidWireMapping position encoding .invalidLine
  | some bounds =>
    match slice source bounds.start bounds.contentEnd with
    | none => invalidWireMapping position encoding .instrumentFailure
    | some lineText => wireWalk source position encoding bounds 0 0 lineText

-- Tuple comparison `(line, character) > (line, character)`.
def after (left right : WirePosition) : Bool :=
  decide (right.line < left.line) ||
    (left.line == right.line && decide (right.character < left.character))

-- `Option<usize>` comparison: `None` is below every `Some`.
def offsetAbove : Option Nat → Option Nat → Bool
  | some left, some right => decide (right < left)
  | some _, none => true
  | none, _ => false

def wireRangeToBytes (source : List Char) (range : WireRange) (encoding : PositionEncoding) :
    RangeMapping :=
  let start := wirePositionToByte source range.start encoding
  let stop := wirePositionToByte source range.stop encoding
  let disposition :=
    if after range.start range.stop then .invalidRangeOrder
    else if !start.disposition.admitsIncomingMutation then start.disposition
    else if !stop.disposition.admitsIncomingMutation then stop.disposition
    else if offsetAbove start.byteOffset stop.byteOffset then .invalidRangeOrder
    else if start.disposition = .lineEndNormalized ∨ stop.disposition = .lineEndNormalized then
      .lineEndNormalized
    else .exact
  { start, stop, disposition }

-- The code-unit loop of `byte_to_wire_position`.
def countUnits (encoding : PositionEncoding) : UInt32 → List Char → Option UInt32
  | character, [] => some character
  | character, scalar :: rest =>
    match checkedAdd character (encoding.codeUnits scalar) with
    | some next => countUnits encoding next rest
    | none => none

def byteToWirePosition (source : List Char) (byteOffset : Nat) (encoding : PositionEncoding) :
    BytePositionMapping :=
  if size source < byteOffset then
    invalidByteMapping byteOffset encoding .overflowOrResourceBoundary
  else if !isCharBoundary source byteOffset then
    invalidByteMapping byteOffset encoding .invalidCodeUnitBoundary
  else
    match lookupByteLine source byteOffset with
    | .newlineInterior => invalidByteMapping byteOffset encoding .invalidNewlineBoundary
    | .outOfBounds => invalidByteMapping byteOffset encoding .overflowOrResourceBoundary
    | .overflow => invalidByteMapping byteOffset encoding .overflowOrResourceBoundary
    | .content bounds =>
      match slice source bounds.start byteOffset with
      | none => invalidByteMapping byteOffset encoding .instrumentFailure
      | some linePrefix =>
        match countUnits encoding 0 linePrefix with
        | none => invalidByteMapping byteOffset encoding .overflowOrResourceBoundary
        | some character =>
          match (slice source 0 byteOffset).map List.length with
          | none => invalidByteMapping byteOffset encoding .instrumentFailure
          | some charOffset =>
            { byteOffset
              charOffset := some charOffset
              wirePosition := some { line := bounds.line, character }
              encoding
              disposition := .exact }

section LineRule

def breaks (scalar : Char) : Bool := scalar == '\r' || scalar == '\n'

def separate : List Char → List Char × List Char
  | [] => ([], [])
  | '\r' :: '\n' :: rest => (['\r', '\n'], rest)
  | scalar :: rest => ([scalar], rest)

theorem separate_whole (text : List Char) : text = (separate text).1 ++ (separate text).2 := by
  unfold separate
  split <;> rfl

theorem separate_last (text : List Char) (none : (separate text).1 = []) : (separate text).2 = [] := by
  revert none
  unfold separate
  split <;> simp

/-- LF, CR and CRLF end a line; CRLF is taken whole. -/
def strictCut (text : List Char) : Cut text where
  content := text.takeWhile fun scalar => !breaks scalar
  separator := (separate (text.dropWhile fun scalar => !breaks scalar)).1
  rest := (separate (text.dropWhile fun scalar => !breaks scalar)).2
  whole := by
    rw [append_assoc, ← separate_whole, takeWhile_append_dropWhile]
  last := separate_last _

theorem breaks_byte_kept (scalar : Char) (kept : (!breaks scalar) = true) :
    ∀ byte ∈ String.utf8EncodeChar scalar, (!breaksByte byte) = true := by
  simp only [breaks, Bool.not_eq_true', Bool.or_eq_false_iff, beq_eq_false_iff_ne] at kept
  intro byte member
  simp only [breaksByte, Bool.not_eq_true', Bool.or_eq_false_iff, beq_eq_false_iff_ne]
  by_cases low : scalar.val.toNat < 0x80
  · rw [encode_ascii scalar low, mem_singleton] at member
    subst member
    simp only [ne_eq, ← Char.val_inj, ← UInt32.toNat_inj] at kept
    change ¬ scalar.val.toNat = 13 ∧ ¬ scalar.val.toNat = 10 at kept
    simp only [ne_eq, ← UInt8.toNat_inj, UInt8.toNat_ofNat', UInt8.reduceToNat]
    omega
  · have high := encoded_high scalar (by omega) byte member
    simp only [UInt8.le_iff_toNat_le, UInt8.reduceToNat] at high
    simp only [ne_eq, ← UInt8.toNat_inj, UInt8.reduceToNat]
    omega

theorem breaks_cases (scalar : Char) (broken : (!breaks scalar) = false) :
    scalar = '\r' ∨ scalar = '\n' := by
  by_cases cr : scalar = '\r'
  · exact .inl cr
  · exact .inr (by simpa [breaks, cr] using broken)

theorem breaks_byte_stops (scalar : Char) (broken : (!breaks scalar) = false) :
    ∃ first tail, String.utf8EncodeChar scalar = first :: tail ∧ (!breaksByte first) = false := by
  rcases breaks_cases scalar broken with rfl | rfl
  · exact ⟨0x0D, [], by decide, by decide⟩
  · exact ⟨0x0A, [], by decide, by decide⟩

theorem drop_encode (front back : List Char) : (encode (front ++ back)).drop (size front) = encode back := by
  rw [encode_append, size, drop_left]

/-- Byte and scalar views of the separator that starts a text. -/
theorem separator_end_encode (contentEnd : Nat) (text : List Char)
    (starts : ∀ scalar rest, text = scalar :: rest → (!breaks scalar) = false) :
    separatorEndAt contentEnd (encode text) = contentEnd + size (separate text).1 := by
  cases text with
  | nil => rfl
  | cons scalar rest =>
    have lf : (encode rest).head? = some 0x0A ↔ rest.head? = some '\n' :=
      encode_head rest '\n' (by decide)
    rcases breaks_cases scalar (starts scalar rest rfl) with rfl | rfl
    · have front : encode ('\r' :: rest) = 0x0D :: encode rest := rfl
      rw [front, separatorEndAt]
      cases rest with
      | nil => rfl
      | cons next more =>
        by_cases paired : next = '\n'
        · subst paired
          rfl
        have single : separate ('\r' :: next :: more) = (['\r'], next :: more) := by
          rw [separate]
          simpa using paired
        rw [if_neg (fun both => paired (Option.some.inj (lf.mp both.2))), single]
        rfl
    · rfl

end LineRule

section Scan

def scanAt (passed ahead : List Char) (line : UInt32) : LineScan :=
  { bytes := encode (passed ++ ahead), line, start := size passed, index := size passed }

/-- The line a scan yields is the one the rule cuts off the text ahead. -/
theorem next_line_cut (passed ahead : List Char) (line : UInt32) : (scanAt passed ahead line).nextLine = some
      ({ bounds :=
          { line, start := size passed, contentEnd := size passed + size (strictCut ahead).content }
         separatorEnd := size passed + size (strictCut ahead).content + size (strictCut ahead).separator },
        if (strictCut ahead).separator = [] then
          { scanAt passed ahead line with exhausted := true }
        else
          match checkedAdd line 1 with
          | some next =>
            scanAt (passed ++ (strictCut ahead).content ++ (strictCut ahead).separator)
              (strictCut ahead).rest next
          | none => { scanAt passed ahead line with exhausted := true, overflowed := true }) := by
  have stopped (scalar : Char) (rest : List Char)
      (shape : ahead.dropWhile (fun scalar => !breaks scalar) = scalar :: rest) :
      (!breaks scalar) = false := by
    have refused := head_dropWhile_not (fun scalar => !breaks scalar) (by rw [shape]; simp)
    simpa [shape] using refused
  have width : (((encode (passed ++ ahead)).drop (size passed)).takeWhile
      fun byte => !breaksByte byte).length = size (strictCut ahead).content := by
    rw [drop_encode, encode_take_while _ _ breaks_byte_kept breaks_byte_stops ahead]
    rfl
  have behind : (encode (passed ++ ahead)).drop (size passed + size (strictCut ahead).content) =
      encode (ahead.dropWhile fun scalar => !breaks scalar) := by
    have parts : passed ++ ahead = (passed ++ (strictCut ahead).content) ++
        ahead.dropWhile fun scalar => !breaks scalar := by
      rw [append_assoc]
      exact congrArg _ takeWhile_append_dropWhile.symm
    rw [parts, ← size_append, drop_encode]
  have ends := separator_end_encode (size passed + size (strictCut ahead).content)
    (ahead.dropWhile fun scalar => !breaks scalar) stopped
  change _ = size passed + size (strictCut ahead).content + size (strictCut ahead).separator at ends
  have vacant : (encode (ahead.dropWhile fun scalar => !breaks scalar)).isEmpty = true ↔
      (strictCut ahead).separator = [] := by
    rw [List.isEmpty_iff]
    constructor
    · intro nothing
      have zero : size (ahead.dropWhile fun scalar => !breaks scalar) = 0 := by
        rw [size, nothing]
        rfl
      change (separate (ahead.dropWhile fun scalar => !breaks scalar)).1 = []
      rw [size_zero _ zero]
      rfl
    · intro none
      have rest : (strictCut ahead).rest = [] := (strictCut ahead).last none
      have parts := separate_whole (ahead.dropWhile fun scalar => !breaks scalar)
      change _ = (strictCut ahead).separator ++ (strictCut ahead).rest at parts
      rw [parts, none, rest]
      rfl
  have same : passed ++ (strictCut ahead).content ++ (strictCut ahead).separator ++
      (strictCut ahead).rest = passed ++ ahead := by
    have whole := (strictCut ahead).whole
    simp only [append_assoc] at whole ⊢
    rw [← whole]
  unfold LineScan.nextLine
  simp only [scanAt, Bool.false_eq_true, ↓reduceIte, width, behind, ends, vacant, same, size_append]

variable (scan : LineScan)

theorem exhausted_ends (exhausted : scan.exhausted = true) : scan.nextLine = none := by
  simp [LineScan.nextLine, exhausted]

theorem line_bounds_step (next : LineScan) (line : ScannedLine) (targetLine : UInt32)
    (found : scan.nextLine = some (line, next)) : lineBoundsFrom scan targetLine =
      if line.bounds.line = targetLine then some line.bounds else lineBoundsFrom next targetLine := by
  rw [lineBoundsFrom]
  split
  · rename_i ended
    rw [found] at ended
    simp at ended
  rename_i line' next' found'
  rw [found] at found'
  obtain ⟨rfl, rfl⟩ := Prod.mk.inj (Option.some.inj found')
  rfl

theorem line_bounds_exhausted (targetLine : UInt32)
    (exhausted : scan.exhausted = true) : lineBoundsFrom scan targetLine = none := by
  rw [lineBoundsFrom]
  split
  · rfl
  · rename_i found
    rw [exhausted_ends scan exhausted] at found
    simp at found

theorem lookup_step (next : LineScan) (line : ScannedLine) (targetByte : Nat)
    (found : scan.nextLine = some (line, next)) : lookupByteLineFrom scan targetByte =
      if line.bounds.start ≤ targetByte ∧ targetByte ≤ line.bounds.contentEnd then
        .content line.bounds
      else if line.bounds.contentEnd < targetByte ∧ targetByte < line.separatorEnd then
        .newlineInterior
      else lookupByteLineFrom next targetByte := by
  rw [lookupByteLineFrom]
  split
  · rename_i ended
    rw [found] at ended
    simp at ended
  · rename_i line' next' found'
    rw [found] at found'
    obtain ⟨rfl, rfl⟩ := Prod.mk.inj (Option.some.inj found')
    rfl

theorem lookup_exhausted (targetByte : Nat) (bounds : LineBounds)
    (exhausted : scan.exhausted = true) : lookupByteLineFrom scan targetByte ≠ .content bounds := by
  rw [lookupByteLineFrom]
  split
  · split <;> simp
  · rename_i found
    rw [exhausted_ends scan exhausted] at found
    simp at found

theorem checked_add_some (left next : UInt32) (right : Nat) (added : checkedAdd left right = some next) :
    next.toNat = left.toNat + right := by
  unfold checkedAdd at added
  split at added
  · rename_i fits
    obtain rfl := Option.some.inj added
    rw [UInt32.toNat_ofNat', Nat.mod_eq_of_lt fits]
  · simp at added

theorem checked_add_none (left : UInt32) (right : Nat) (refused : checkedAdd left right = none) :
    2 ^ 32 ≤ left.toNat + right := by
  unfold checkedAdd at refused
  split at refused
  · simp at refused
  · omega

/-- `line_bounds` finds exactly the line the rule gives that number. -/
theorem line_bounds_from_iff (ahead passed : List Char) (line targetLine : UInt32)
    (bounds : LineBounds) : lineBoundsFrom (scanAt passed ahead line) targetLine = some bounds ↔
      ∃ count before content after, LineAt strictCut ahead count before content after ∧
        line.toNat + count = targetLine.toNat ∧
        bounds = ⟨targetLine, size passed + size before, size passed + size before + size content⟩ := by
  induction total : ahead.length using Nat.strong_induction_on generalizing ahead passed line with
  | _ length ih =>
    subst total
    rw [line_bounds_step _ _ _ _ (next_line_cut passed ahead line)]
    simp only
    by_cases here : line = targetLine
    · rw [if_pos here]
      constructor
      · intro found
        obtain rfl := Option.some.inj found
        exact ⟨0, [], _, _, .first ahead, by rw [here, Nat.add_zero], by rw [here]; simp⟩
      · rintro ⟨count, before, content, after, found, counted, rfl⟩
        obtain rfl : count = 0 := by
          rw [here] at counted
          omega
        cases found
        rw [here]
        simp
    · have away : line.toNat ≠ targetLine.toNat := fun same => here (UInt32.toNat_inj.mp same)
      rw [if_neg here]
      by_cases final : (strictCut ahead).separator = []
      · rw [if_pos final, line_bounds_exhausted _ _ rfl]
        simp only [reduceCtorEq, false_iff]
        rintro ⟨count, before, content, after, found, counted, -⟩
        cases found with
        | first => omega
        | next _ _ _ _ _ separated _ => exact separated final
      rw [if_neg final]
      cases added : checkedAdd line 1 with
      | none =>
        have full := checked_add_none line 1 added
        have limit := targetLine.toNat_lt
        rw [line_bounds_exhausted _ _ rfl]
        simp only [reduceCtorEq, false_iff]
        rintro ⟨count, before, content, after, found, counted, -⟩
        omega
      | some next =>
        have advanced := checked_add_some line next 1 added
        simp only
        rw [ih _ (rest_shorter ahead final) _ _ _ rfl]
        constructor
        · rintro ⟨count, before, content, after, found, counted, rfl⟩
          refine ⟨count + 1, _, content, after, .next ahead count before content after final found,
            by omega, ?_⟩
          simp only [size_append, Nat.add_assoc]
        · rintro ⟨count, before, content, after, found, counted, rfl⟩
          cases found with
          | first => omega
          | next _ count before _ _ _ found =>
            refine ⟨count, before, content, after, found, by omega, ?_⟩
            simp only [size_append, Nat.add_assoc]

/-- `lookup_byte_line` finds exactly the counted line whose content holds the byte. -/
theorem lookup_from_iff (ahead passed : List Char) (line : UInt32) (targetByte : Nat)
    (bounds : LineBounds) : lookupByteLineFrom (scanAt passed ahead line) targetByte = .content bounds ↔
      ∃ count before content after, LineAt strictCut ahead count before content after ∧
        line.toNat + count = bounds.line.toNat ∧
        bounds.start = size passed + size before ∧
        bounds.contentEnd = size passed + size before + size content ∧
        bounds.start ≤ targetByte ∧ targetByte ≤ bounds.contentEnd := by
  induction total : ahead.length using Nat.strong_induction_on generalizing ahead passed line with
  | _ length ih =>
    subst total
    rw [lookup_step _ _ _ _ (next_line_cut passed ahead line)]
    simp only
    by_cases here : size passed ≤ targetByte ∧ targetByte ≤ size passed + size (strictCut ahead).content
    · rw [if_pos here]
      constructor
      · intro found
        obtain rfl := ByteLineLookup.content.inj found
        exact ⟨0, [], _, _, .first ahead, rfl, rfl, rfl, here.1, here.2⟩
      · rintro ⟨count, before, content, after, found, counted, start, stop, low, high⟩
        cases found with
        | first =>
          rw [size_nil, Nat.add_zero] at start stop
          have same : line = bounds.line := UInt32.toNat_inj.mp counted
          rw [same, ← stop, ← start]
        | next _ _ _ _ _ separated _ =>
          have width : size (strictCut ahead).separator ≠ 0 := fun zero =>
            separated (size_zero _ zero)
          simp only [size_append] at start
          omega
    · rw [if_neg here]
      -- Past this line only a later one can hold the byte.
      have later (count : Nat) (before content after : List Char)
          (found : LineAt strictCut ahead count before content after)
          (start : bounds.start = size passed + size before)
          (stop : bounds.contentEnd = size passed + size before + size content)
          (low : bounds.start ≤ targetByte) (high : targetByte ≤ bounds.contentEnd) :
          ∃ count' before', count = count' + 1 ∧
            before = (strictCut ahead).content ++ (strictCut ahead).separator ++ before' ∧
            (strictCut ahead).separator ≠ [] ∧
            LineAt strictCut (strictCut ahead).rest count' before' content after := by
        cases found with
        | first =>
          rw [size_nil, Nat.add_zero] at start stop
          omega
        | next _ count' before' _ _ separated found =>
          exact ⟨count', before', rfl, rfl, separated, found⟩
      by_cases interior : size passed + size (strictCut ahead).content < targetByte ∧
          targetByte < size passed + size (strictCut ahead).content + size (strictCut ahead).separator
      · rw [if_pos interior]
        simp only [reduceCtorEq, false_iff]
        rintro ⟨count, before, content, after, found, counted, start, stop, low, high⟩
        obtain ⟨count', before', rfl, rfl, -, -⟩ :=
          later count before content after found start stop low high
        simp only [size_append] at start
        omega
      · rw [if_neg interior]
        by_cases final : (strictCut ahead).separator = []
        · rw [if_pos final]
          constructor
          · intro found
            exact absurd found (lookup_exhausted _ _ _ rfl)
          · rintro ⟨count, before, content, after, found, counted, start, stop, low, high⟩
            obtain ⟨_, _, -, -, separated, -⟩ :=
              later count before content after found start stop low high
            exact absurd final separated
        · rw [if_neg final]
          cases added : checkedAdd line 1 with
          | none =>
            have full := checked_add_none line 1 added
            have limit := bounds.line.toNat_lt
            constructor
            · intro found
              exact absurd found (lookup_exhausted _ _ _ rfl)
            · rintro ⟨count, before, content, after, found, counted, start, stop, low, high⟩
              obtain ⟨_, _, rfl, -, -, -⟩ :=
                later count before content after found start stop low high
              omega
          | some next =>
            have advanced := checked_add_some line next 1 added
            simp only
            rw [ih _ (rest_shorter ahead final) _ _ _ rfl]
            simp only [size_append]
            constructor
            · rintro ⟨count, before, content, after, found, counted, start, stop, low, high⟩
              refine ⟨count + 1, _, content, after,
                .next ahead count before content after final found, by omega, ?_, ?_, low, high⟩
              · simp only [size_append]
                omega
              · simp only [size_append]
                omega
            · rintro ⟨count, before, content, after, found, counted, start, stop, low, high⟩
              obtain ⟨count', before', rfl, rfl, -, found'⟩ :=
                later count before content after found start stop low high
              simp only [size_append] at start stop
              exact ⟨count', before', content, after, found', by omega, by omega, by omega, low, high⟩

end Scan

section Conversion
variable {encoding : PositionEncoding}

theorem code_units_positive (encoding : PositionEncoding) (scalar : Char) :
    0 < encoding.codeUnits scalar := by
  cases encoding with
  | utf8 => exact scalar.utf8Size_pos
  | utf16 => exact len_utf16_positive scalar

def MapsTo (mapping : PositionMapping) (disposition : PositionMappingDisposition)
    (byteOffset : Nat) : Prop :=
  mapping.disposition = disposition ∧ mapping.byteOffset = some byteOffset

theorem mapped_front (front back : List Char) (requested normalized : WirePosition)
    (disposition : PositionMappingDisposition) :
    mappedWirePosition (front ++ back) requested normalized (size front) encoding disposition =
      { requested, normalized := some normalized, byteOffset := some (size front),
        charOffset := some front.length, encoding, disposition } := by
  have cut : slice (front ++ back) 0 (size front) = some front := by
    have parts := slice_parts [] front back
    simpa using parts
  simp [mappedWirePosition, cut]

/-- The walk is exact at the front part of the line whose code units were asked for. -/
theorem wire_walk_exact (position : WirePosition) (line : UInt32) (ahead before passed after : List Char)
    (codeUnits : UInt32) (byteOffset : Nat) (counted : codeUnits.toNat = weight encoding.codeUnits passed) :
    MapsTo (wireWalk (before ++ (passed ++ ahead) ++ after) position encoding
        ⟨line, size before, size before + size (passed ++ ahead)⟩ codeUnits (size passed) ahead)
        .exact byteOffset ↔
      ∃ front back, ahead = front ++ back ∧
        weight encoding.codeUnits (passed ++ front) = position.character.toNat ∧
        byteOffset = size before + size (passed ++ front) := by
  induction ahead generalizing passed codeUnits with
  | nil =>
    have shape : before ++ (passed ++ []) ++ after = (before ++ passed) ++ after := by simp
    have width : size before + size (passed ++ []) = size (before ++ passed) := by simp
    rw [wireWalk, shape]
    simp only [width]
    rw [mapped_front]
    constructor
    · rintro ⟨exact, offset⟩
      simp only [ite_eq_left_iff, reduceCtorEq, imp_false, not_not] at exact
      refine ⟨[], [], rfl, ?_, ?_⟩
      · rw [append_nil, ← counted, exact]
      · have same := Option.some.inj offset
        rw [append_nil, ← same, size_append]
    · rintro ⟨front, back, parts, weighed, rfl⟩
      obtain ⟨rfl, rfl⟩ := append_eq_nil_iff.mp parts.symm
      rw [append_nil, ← counted] at weighed
      have same : position.character = codeUnits := UInt32.toNat_inj.mp weighed.symm
      exact ⟨by simp [same], by simp⟩
  | cons scalar rest ih =>
    have positive := code_units_positive encoding scalar
    rw [wireWalk]
    by_cases here : codeUnits = position.character
    · have shape : before ++ (passed ++ scalar :: rest) ++ after =
          (before ++ passed) ++ (scalar :: rest ++ after) := by simp
      have width : size before + size passed = size (before ++ passed) := by simp
      rw [if_pos here, shape, width, mapped_front]
      constructor
      · rintro ⟨-, offset⟩
        refine ⟨[], scalar :: rest, rfl, ?_, ?_⟩
        · rw [append_nil, ← counted, here]
        · have same := Option.some.inj offset
          rw [append_nil, ← same, size_append]
      · rintro ⟨front, back, parts, weighed, rfl⟩
        rw [weight_append, ← counted, here] at weighed
        have vacant := weight_zero _ (code_units_positive encoding) front (by omega)
        subst vacant
        exact ⟨rfl, by simp⟩
    · have away : codeUnits.toNat ≠ position.character.toNat := fun same =>
        here (UInt32.toNat_inj.mp same)
      rw [if_neg here]
      -- Whatever part of the line matches, it takes in this scalar.
      have reach (front back : List Char) (parts : scalar :: rest = front ++ back)
          (weighed : weight encoding.codeUnits (passed ++ front) = position.character.toNat) :
          ∃ more, front = scalar :: more ∧ rest = more ++ back := by
        cases front with
        | nil =>
          rw [append_nil, ← counted] at weighed
          exact absurd weighed away
        | cons first more =>
          obtain ⟨rfl, tail⟩ := List.cons.inj parts
          exact ⟨more, rfl, tail⟩
      cases added : checkedAdd codeUnits (encoding.codeUnits scalar) with
      | none =>
        have full := checked_add_none _ _ added
        have limit := position.character.toNat_lt
        simp only
        constructor
        · rintro ⟨exact, -⟩
          simp [invalidWireMapping] at exact
        · rintro ⟨front, back, parts, weighed, -⟩
          obtain ⟨more, rfl, -⟩ := reach front back parts weighed
          rw [weight_append, weight_cons, ← counted] at weighed
          omega
      | some nextUnits =>
        have advanced := checked_add_some _ _ _ added
        simp only
        by_cases inside : position.character < nextUnits
        · rw [if_pos inside]
          rw [UInt32.lt_iff_toNat_lt] at inside
          constructor
          · rintro ⟨exact, -⟩
            simp [invalidWireMapping] at exact
          · rintro ⟨front, back, parts, weighed, -⟩
            obtain ⟨more, rfl, -⟩ := reach front back parts weighed
            rw [weight_append, weight_cons, ← counted] at weighed
            omega
        · rw [if_neg inside]
          have shape : passed ++ scalar :: rest = (passed ++ [scalar]) ++ rest := by simp
          have width : size passed + scalar.utf8Size = size (passed ++ [scalar]) := by simp
          rw [shape, width, ih (passed ++ [scalar]) nextUnits (by
            rw [weight_append, weight_cons, weight_nil, advanced, counted, Nat.add_zero])]
          constructor
          · rintro ⟨front, back, rfl, weighed, rfl⟩
            exact ⟨scalar :: front, back, rfl, by simpa using weighed, by simp⟩
          · rintro ⟨front, back, parts, weighed, rfl⟩
            obtain ⟨more, rfl, rfl⟩ := reach front back parts weighed
            exact ⟨more, back, rfl, by simpa using weighed, by simp⟩

/-- A walk that runs off the line reports the line's end and all its code units. -/
theorem wire_walk_normalized (position : WirePosition) (line : UInt32)
    (ahead before passed after : List Char) (codeUnits : UInt32)
    (counted : codeUnits.toNat = weight encoding.codeUnits passed)
    (past : (wireWalk (before ++ (passed ++ ahead) ++ after) position encoding
      ⟨line, size before, size before + size (passed ++ ahead)⟩ codeUnits (size passed)
        ahead).disposition = .lineEndNormalized) :
    ∃ units : UInt32, units.toNat = weight encoding.codeUnits (passed ++ ahead) ∧
      (wireWalk (before ++ (passed ++ ahead) ++ after) position encoding
        ⟨line, size before, size before + size (passed ++ ahead)⟩ codeUnits (size passed)
          ahead).normalized = some ⟨position.line, units⟩ ∧
      (wireWalk (before ++ (passed ++ ahead) ++ after) position encoding
        ⟨line, size before, size before + size (passed ++ ahead)⟩ codeUnits (size passed)
          ahead).byteOffset = some (size before + size (passed ++ ahead)) := by
  induction ahead generalizing passed codeUnits with
  | nil =>
    have shape : before ++ (passed ++ []) ++ after = (before ++ passed) ++ after := by simp
    have width : size before + size (passed ++ []) = size (before ++ passed) := by simp
    refine ⟨codeUnits, by rw [counted, append_nil], ?_, ?_⟩ <;>
    · rw [wireWalk, shape]
      simp only [width]
      rw [mapped_front]
  | cons scalar rest ih =>
    rw [wireWalk] at past ⊢
    by_cases here : codeUnits = position.character
    · have shape : before ++ (passed ++ scalar :: rest) ++ after =
          (before ++ passed) ++ (scalar :: rest ++ after) := by simp
      have width : size before + size passed = size (before ++ passed) := by simp
      rw [if_pos here, shape, width, mapped_front] at past
      simp at past
    rw [if_neg here] at past ⊢
    cases added : checkedAdd codeUnits (encoding.codeUnits scalar) with
    | none => simp [added, invalidWireMapping] at past
    | some nextUnits =>
      have advanced := checked_add_some _ _ _ added
      simp only [added] at past ⊢
      by_cases inside : position.character < nextUnits
      · simp [inside, invalidWireMapping] at past
      have shape : passed ++ scalar :: rest = (passed ++ [scalar]) ++ rest := by simp
      have width : size passed + scalar.utf8Size = size (passed ++ [scalar]) := by simp
      rw [if_neg inside, shape, width] at past ⊢
      exact ih (passed ++ [scalar]) nextUnits (by
        rw [weight_append, weight_cons, weight_nil, advanced, counted, Nat.add_zero]) past

theorem line_bounds_iff (source : List Char) (line : UInt32) (bounds : LineBounds) :
    lineBounds source line = some bounds ↔
      ∃ before content after, LineAt strictCut source line.toNat before content after ∧
        bounds = ⟨line, size before, size before + size content⟩ := by
  have scanned := line_bounds_from_iff source [] 0 line bounds
  change lineBounds source line = some bounds ↔ _ at scanned
  rw [scanned]
  constructor
  · rintro ⟨count, before, content, after, found, counted, rfl⟩
    obtain rfl : count = line.toNat := by simpa using counted
    exact ⟨before, content, after, found, by simp⟩
  · rintro ⟨before, content, after, found, rfl⟩
    exact ⟨line.toNat, before, content, after, found, by simp, by simp⟩

section
variable (source : List Char) (position : WirePosition)
include source position

theorem wire_position_line (before content after : List Char)
    (found : LineAt strictCut source position.line.toNat before content after) :
    wirePositionToByte source position encoding =
      wireWalk (before ++ ([] ++ content) ++ after) position encoding
        ⟨position.line, size before, size before + size ([] ++ content)⟩ 0 (size []) content := by
  have bounds := (line_bounds_iff source position.line _).mpr ⟨before, content, after, found, rfl⟩
  have cut := slice_parts before content after
  rw [← line_whole found] at cut
  rw [wirePositionToByte, bounds]
  simp only [cut, nil_append, size_nil]
  rw [← line_whole found]

/-- Exact wire positions are the addresses of their byte offsets. -/
theorem wire_exact_iff (byteOffset : Nat) :
    MapsTo (wirePositionToByte source position encoding) .exact byteOffset ↔
      Address strictCut encoding.codeUnits source position.line.toNat position.character.toNat
        byteOffset := by
  constructor
  · intro mapped
    cases bounded : lineBounds source position.line with
    | none =>
      rw [wirePositionToByte, bounded] at mapped
      simp [MapsTo, invalidWireMapping] at mapped
    | some bounds =>
      obtain ⟨before, content, after, found, -⟩ := (line_bounds_iff _ _ _).mp bounded
      rw [wire_position_line source position before content after found,
        wire_walk_exact position _ content before [] after 0 byteOffset rfl] at mapped
      obtain ⟨front, back, rfl, weighed, rfl⟩ := mapped
      exact ⟨before, front, back, after, found, weighed, rfl⟩
  · rintro ⟨before, front, back, after, found, weighed, rfl⟩
    rw [wire_position_line source position before _ after found,
      wire_walk_exact position _ _ before [] after 0 _ rfl]
    exact ⟨front, back, rfl, weighed, rfl⟩

/-- Normalizing lands on the end of the line, which is itself exact. -/
theorem wire_normalized
    (normalized : (wirePositionToByte source position encoding).disposition = .lineEndNormalized) :
    ∃ lineEnd byteOffset, (wirePositionToByte source position encoding).normalized = some lineEnd ∧
      (wirePositionToByte source position encoding).byteOffset = some byteOffset ∧
      MapsTo (wirePositionToByte source lineEnd encoding) .exact byteOffset := by
  cases bounded : lineBounds source position.line with
  | none =>
    rw [wirePositionToByte, bounded] at normalized
    simp [invalidWireMapping] at normalized
  | some bounds =>
    obtain ⟨before, content, after, found, -⟩ := (line_bounds_iff _ _ _).mp bounded
    have walk := @wire_position_line encoding source position before content after found
    rw [walk] at normalized
    obtain ⟨units, weighed, lineEnd, offset⟩ :=
      wire_walk_normalized position _ content before [] after 0 rfl normalized
    refine ⟨⟨position.line, units⟩, size before + size content, ?_, ?_, ?_⟩
    · rw [walk, lineEnd]
    · rw [walk, offset]
      rfl
    · rw [wire_exact_iff]
      exact ⟨before, content, [], after, by simpa using found, by rw [weighed]; rfl, rfl⟩

end

theorem count_units_iff (text : List Char) (character total : UInt32) :
    countUnits encoding character text = some total ↔
      character.toNat + weight encoding.codeUnits text = total.toNat := by
  induction text generalizing character with
  | nil =>
    rw [countUnits, weight_nil, Nat.add_zero, Option.some.injEq, UInt32.toNat_inj]
  | cons scalar rest ih =>
    rw [countUnits, weight_cons]
    cases added : checkedAdd character (encoding.codeUnits scalar) with
    | none =>
      have full := checked_add_none _ _ added
      have limit := total.toNat_lt
      simp only [reduceCtorEq, false_iff]
      omega
    | some next =>
      have advanced := checked_add_some _ _ _ added
      simp only
      rw [ih]
      omega

variable (source : List Char)

theorem lookup_iff (byteOffset : Nat) (bounds : LineBounds) (inside : byteOffset ≤ size source) :
    lookupByteLine source byteOffset = .content bounds ↔ ∃ before content after,
        LineAt strictCut source bounds.line.toNat before content after ∧
        bounds.start = size before ∧ bounds.contentEnd = size before + size content ∧
        size before ≤ byteOffset ∧ byteOffset ≤ size before + size content := by
  have scanned := lookup_from_iff source [] 0 byteOffset bounds
  rw [lookupByteLine, if_neg (by omega)]
  change lookupByteLineFrom { bytes := encode source } byteOffset = .content bounds ↔ _ at scanned
  rw [scanned]
  constructor
  · rintro ⟨count, before, content, after, found, counted, start, stop, low, high⟩
    obtain rfl : count = bounds.line.toNat := by simpa using counted
    rw [size_nil, Nat.zero_add] at start stop
    exact ⟨before, content, after, found, start, stop, by omega, by omega⟩
  · rintro ⟨before, content, after, found, start, stop, low, high⟩
    exact ⟨bounds.line.toNat, before, content, after, found, by simp, by simpa using start,
      by simpa using stop, by omega, by omega⟩

theorem byte_position_line (line : UInt32) (before front back after : List Char)
    (found : LineAt strictCut source line.toNat before (front ++ back) after) :
    byteToWirePosition source (size before + size front) encoding =
      match countUnits encoding 0 front with
      | none => invalidByteMapping (size before + size front) encoding .overflowOrResourceBoundary
      | some character =>
        { byteOffset := size before + size front
          charOffset := some (before ++ front).length
          wirePosition := some ⟨line, character⟩
          encoding
          disposition := .exact } := by
  have whole : source = (before ++ front) ++ (back ++ after) := by
    rw [line_whole found]
    simp
  have width : size before + size front = size (before ++ front) := by simp
  have inside : size before + size front ≤ size source := by
    rw [whole, size_append (before ++ front)]
    omega
  have boundary : isCharBoundary source (size before + size front) = true :=
    (boundary_iff _ _).mpr ⟨_, _, whole, width.symm⟩
  have content := (lookup_iff source (size before + size front)
    ⟨line, size before, size before + size (front ++ back)⟩ inside).mpr
    ⟨before, front ++ back, after, found, rfl, rfl, by omega, by rw [size_append]; omega⟩
  have linePrefix : slice source (size before) (size before + size front) = some front := by
    rw [whole]
    exact slice_parts before front (back ++ after)
  have all : slice source 0 (size before + size front) = some (before ++ front) := by
    have parts := slice_parts [] (before ++ front) (back ++ after)
    rw [whole]
    simpa using parts
  rw [byteToWirePosition, if_neg (by omega), boundary]
  simp only [Bool.not_true, Bool.false_eq_true, content, linePrefix, all]
  cases countUnits encoding 0 front <;> rfl

/-- Exact byte offsets are the offsets of their wire addresses. -/
theorem byte_exact_iff (byteOffset : Nat) (position : WirePosition) :
    ((byteToWirePosition source byteOffset encoding).disposition = .exact ∧
      (byteToWirePosition source byteOffset encoding).wirePosition = some position) ↔
      Address strictCut encoding.codeUnits source position.line.toNat position.character.toNat
        byteOffset := by
  constructor
  · rintro ⟨exact, wire⟩
    by_cases outside : size source < byteOffset
    · simp [byteToWirePosition, outside, invalidByteMapping] at exact
    by_cases boundary : isCharBoundary source byteOffset = true
    · cases looked : lookupByteLine source byteOffset with
      | newlineInterior | outOfBounds | overflow =>
        simp [byteToWirePosition, outside, boundary, looked, invalidByteMapping] at exact
      | content bounds =>
        obtain ⟨before, content, after, found, -, -, low, high⟩ :=
          (lookup_iff source byteOffset bounds (by omega)).mp looked
        obtain ⟨left, right, parts, rfl⟩ := (boundary_iff _ _).mp boundary
        rw [line_whole found] at parts
        obtain ⟨front, back, rfl, rfl, -⟩ :=
          split_middle before content after left right parts low high
        have closed := @byte_position_line encoding source bounds.line before front back after found
        rw [← size_append] at closed
        rw [closed] at exact wire
        cases counted : countUnits encoding 0 front with
        | none => simp [counted, invalidByteMapping] at exact
        | some character =>
          simp only [counted, Option.some.injEq] at wire
          subst wire
          have weighed := (count_units_iff front 0 character).mp counted
          exact ⟨before, front, back, after, found, by simpa using weighed, (size_append _ _).symm⟩
    · simp [byteToWirePosition, outside, boundary, invalidByteMapping] at exact
  · rintro ⟨before, front, back, after, found, weighed, rfl⟩
    have counted := (@count_units_iff encoding front 0 position.character).mpr (by simpa using weighed)
    rw [byte_position_line source position.line before front back after found, counted]
    exact ⟨rfl, rfl⟩

theorem byte_exact_carries (byteOffset : Nat)
    (exact : (byteToWirePosition source byteOffset encoding).disposition = .exact) :
    ∃ position, (byteToWirePosition source byteOffset encoding).wirePosition = some position := by
  revert exact
  unfold byteToWirePosition
  split
  · simp [invalidByteMapping]
  split
  · simp [invalidByteMapping]
  split
  · simp [invalidByteMapping]
  · simp [invalidByteMapping]
  · simp [invalidByteMapping]
  split
  · simp [invalidByteMapping]
  split
  · simp [invalidByteMapping]
  split
  · simp [invalidByteMapping]
  · simp

end Conversion

section Separators

def InsideCrlf (text : List Char) (offset : Nat) : Prop :=
  ∃ left right, text = left ++ '\r' :: '\n' :: right ∧ offset = size left + 1

theorem separate_lone_cr (text : List Char) (cr : (separate text).1.getLast? = some '\r') :
    (separate text).2.head? ≠ some '\n' := by
  revert cr
  unfold separate
  split
  · simp
  · simp
  · rename_i scalar rest unpaired
    simp only [getLast?_singleton, Option.some.injEq]
    rintro rfl lf
    cases rest with
    | nil => simp at lf
    | cons next more =>
      obtain rfl : next = '\n' := by simpa using lf
      exact unpaired more rfl rfl

section
variable {text before content after : List Char} {line : Nat}
    (found : LineAt strictCut text line before content after)
include text before content after line found

theorem line_behind_cr (cr : before.getLast? = some '\r') : (content ++ after).head? ≠ some '\n' := by
  induction found with
  | first text => simp at cr
  | next text line before content after separated found ih =>
    cases before with
    | nil =>
      rw [append_nil, getLast?_append_of_ne_nil _ separated] at cr
      have whole := line_whole found
      rw [nil_append] at whole
      rw [← whole]
      exact separate_lone_cr _ cr
    | cons scalar rest =>
      rw [getLast?_append_of_ne_nil _ (by simp)] at cr
      exact ih cr

theorem line_content_unbroken : ∀ scalar ∈ content, breaks scalar = false := by
  induction found with
  | first text =>
    intro scalar member
    have kept := mem_takeWhile_imp member
    simpa using kept
  | next _ _ _ _ _ _ _ ih => exact ih

end

theorem address_outside_crlf {text : List Char} {measure : Char → Nat} {line units offset : Nat}
    (address : Address strictCut measure text line units offset) : ¬ InsideCrlf text offset := by
  obtain ⟨before, front, back, after, found, -, rfl⟩ := address
  rintro ⟨left, right, whole, offset⟩
  have parts : (before ++ front) ++ (back ++ after) = (left ++ ['\r']) ++ ('\n' :: right) := by
    have same := line_whole found
    rw [whole] at same
    simpa using same.symm
  have equal : before ++ front = left ++ ['\r'] := by
    refine front_unique Char.utf8Size Char.utf8Size_pos _ _ _ _ parts ?_
    rw [← size_weight, ← size_weight, size_append, size_append, offset]
    rfl
  have behind : back ++ after = '\n' :: right := by
    rw [equal] at parts
    exact append_cancel_left parts
  have last : (before ++ front).getLast? = some '\r' := by rw [equal]; simp
  cases shape : front with
  | nil =>
    rw [shape, append_nil] at last
    rw [shape, nil_append] at found
    exact line_behind_cr found last (by rw [behind]; rfl)
  | cons scalar rest =>
    rw [getLast?_append_of_ne_nil _ (by rw [shape]; simp)] at last
    have member : '\r' ∈ front ++ back :=
      mem_append_left back (mem_of_getLast? last)
    have unbroken := line_content_unbroken found '\r' member
    simp [breaks] at unbroken

end Separators

section
variable (source : List Char)
include source

theorem mapped_exact_carries (requested normalized : WirePosition)
    (byteOffset : Nat) (encoding : PositionEncoding) (disposition : PositionMappingDisposition)
    (exact : (mappedWirePosition source requested normalized byteOffset encoding
      disposition).disposition = .exact) :
    (mappedWirePosition source requested normalized byteOffset encoding disposition).byteOffset ≠ none := by
  cases cut : (slice source 0 byteOffset).map List.length with
  | none => simp [mappedWirePosition, cut] at exact
  | some charOffset => simp [mappedWirePosition, cut]

theorem walk_exact_carries (position : WirePosition)
    (encoding : PositionEncoding) (bounds : LineBounds) (ahead : List Char) (codeUnits : UInt32)
    (lineBytes : Nat)
    (exact : (wireWalk source position encoding bounds codeUnits lineBytes ahead).disposition = .exact) :
    (wireWalk source position encoding bounds codeUnits lineBytes ahead).byteOffset ≠ none := by
  induction ahead generalizing codeUnits lineBytes with
  | nil => exact mapped_exact_carries _ _ _ _ _ _ exact
  | cons scalar rest ih =>
    rw [wireWalk] at exact ⊢
    split
    · rename_i here
      rw [if_pos here] at exact
      exact mapped_exact_carries _ _ _ _ _ _ exact
    rename_i away
    rw [if_neg away] at exact
    cases added : checkedAdd codeUnits (encoding.codeUnits scalar) with
    | none => simp [added, invalidWireMapping] at exact
    | some nextUnits =>
      simp only [added] at exact ⊢
      split
      · rename_i inside
        simp [inside, invalidWireMapping] at exact
      · rename_i beyond
        rw [if_neg beyond] at exact
        exact ih _ _ exact

theorem exact_carries (position : WirePosition) (encoding : PositionEncoding)
    (exact : (wirePositionToByte source position encoding).disposition = .exact) :
    (wirePositionToByte source position encoding).byteOffset ≠ none := by
  revert exact
  unfold wirePositionToByte
  split
  · simp [invalidWireMapping]
  split
  · simp [invalidWireMapping]
  · exact walk_exact_carries _ _ _ _ _ _ _

theorem range_admits (range : WireRange) (encoding : PositionEncoding)
    (admitted : (wireRangeToBytes source range encoding).disposition.admitsIncomingMutation = true) :
    (wirePositionToByte source range.start encoding).disposition.admitsIncomingMutation = true ∧
    (wirePositionToByte source range.stop encoding).disposition.admitsIncomingMutation = true ∧
    offsetAbove (wirePositionToByte source range.start encoding).byteOffset
      (wirePositionToByte source range.stop encoding).byteOffset = false := by
  revert admitted
  unfold wireRangeToBytes
  simp only
  split
  · simp [PositionMappingDisposition.admitsIncomingMutation]
  split
  · rename_i refused
    intro admitted
    simp [admitted] at refused
  split
  · rename_i refused
    intro admitted
    simp [admitted] at refused
  split
  · simp [PositionMappingDisposition.admitsIncomingMutation]
  · rename_i start stop forward
    intro _
    exact ⟨by simpa using start, by simpa using stop, by simpa using forward⟩

/-- An admitted endpoint is exact or the exact end of its line. -/
theorem admitted_address (position : WirePosition) (encoding : PositionEncoding)
    (admitted : (wirePositionToByte source position encoding).disposition.admitsIncomingMutation = true) :
    ∃ line units offset, (wirePositionToByte source position encoding).byteOffset = some offset ∧
      Address strictCut encoding.codeUnits source line units offset := by
  cases shape : (wirePositionToByte source position encoding).disposition with
  | exact =>
    cases offset : (wirePositionToByte source position encoding).byteOffset with
    | some byteOffset =>
      exact ⟨_, _, byteOffset, rfl, (wire_exact_iff source position byteOffset).mp ⟨shape, offset⟩⟩
    | none => exact absurd offset (exact_carries source position encoding shape)
  | lineEndNormalized =>
    obtain ⟨lineEnd, byteOffset, -, offset, exact⟩ := wire_normalized source position shape
    exact ⟨_, _, byteOffset, offset, (wire_exact_iff source lineEnd byteOffset).mp exact⟩
  | _ => simp [shape, PositionMappingDisposition.admitsIncomingMutation] at admitted

end

/-- Exact results are mutually inverse and strictly monotone, an admitted range runs forward between
places outside scalars and CRLFs, and a normalized position is exact when mapped again. -/
theorem strict_conversions_agree (source : List Char) (encoding : PositionEncoding) :
    (∀ byteOffset position,
      ((byteToWirePosition source byteOffset encoding).disposition = .exact ∧
        (byteToWirePosition source byteOffset encoding).wirePosition = some position) ↔
      ((wirePositionToByte source position encoding).disposition = .exact ∧
        (wirePositionToByte source position encoding).byteOffset = some byteOffset)) ∧
    (∀ byteOffset, (byteToWirePosition source byteOffset encoding).disposition = .exact →
      ∃ position, (byteToWirePosition source byteOffset encoding).wirePosition = some position) ∧
    (∀ position, (wirePositionToByte source position encoding).disposition = .exact →
      ∃ byteOffset, (wirePositionToByte source position encoding).byteOffset = some byteOffset) ∧
    (∀ left right leftOffset rightOffset,
      MapsTo (wirePositionToByte source left encoding) .exact leftOffset →
      MapsTo (wirePositionToByte source right encoding) .exact rightOffset →
      (leftOffset < rightOffset ↔
        left.line < right.line ∨ left.line = right.line ∧ left.character < right.character)) ∧
    (∀ range, (wireRangeToBytes source range encoding).disposition.admitsIncomingMutation = true →
      ∃ start stop, (wireRangeToBytes source range encoding).byteRange = some (start, stop) ∧
        start ≤ stop ∧ isCharBoundary source start = true ∧ isCharBoundary source stop = true ∧
        ¬ InsideCrlf source start ∧ ¬ InsideCrlf source stop) ∧
    (∀ position, (wirePositionToByte source position encoding).disposition = .lineEndNormalized →
      ∃ lineEnd byteOffset,
        (wirePositionToByte source position encoding).normalized = some lineEnd ∧
        (wirePositionToByte source position encoding).byteOffset = some byteOffset ∧
        MapsTo (wirePositionToByte source lineEnd encoding) .exact byteOffset) := by
  have positive := code_units_positive encoding
  refine ⟨?_, byte_exact_carries source, ?_, ?_, ?_, wire_normalized source⟩
  · intro byteOffset position
    exact (byte_exact_iff source byteOffset position).trans
      (wire_exact_iff source position byteOffset).symm
  · intro position exact
    exact Option.ne_none_iff_exists'.mp (exact_carries source position encoding exact)
  · intro left right leftOffset rightOffset leftMapped rightMapped
    have order := address_order positive ((wire_exact_iff _ _ _).mp leftMapped)
      ((wire_exact_iff _ _ _).mp rightMapped)
    rw [order, UInt32.lt_iff_toNat_lt, UInt32.lt_iff_toNat_lt, UInt32.toNat_inj]
  · intro range admitted
    obtain ⟨startAdmitted, stopAdmitted, forward⟩ := range_admits source range encoding admitted
    obtain ⟨_, _, start, startOffset, startAddress⟩ :=
      admitted_address source range.start encoding startAdmitted
    obtain ⟨_, _, stop, stopOffset, stopAddress⟩ :=
      admitted_address source range.stop encoding stopAdmitted
    refine ⟨start, stop, ?_, ?_, address_boundary startAddress, address_boundary stopAddress,
      address_outside_crlf startAddress, address_outside_crlf stopAddress⟩
    · have startSame : (wireRangeToBytes source range encoding).start.byteOffset = some start :=
        startOffset
      have stopSame : (wireRangeToBytes source range encoding).stop.byteOffset = some stop :=
        stopOffset
      simp [RangeMapping.byteRange, startSame, stopSame, admitted]
    · rw [startOffset, stopOffset] at forward
      simpa [offsetAbove] using forward

end PerlLsp.Strict
