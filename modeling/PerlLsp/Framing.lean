import PerlLsp.Text
import PerlLsp.Utf8

/-! `ContentLengthFramer` of perl-lsp-rs-core/src/transport/framing.rs: the extractor that cuts a
byte stream into `Content-Length` framed bodies, with its resynchronisation, header limits and error
exits. The buffer is the whole state. -/
namespace PerlLsp.Framing
open Text Utf8 List Bool

def contentLength : List Char :=
  ['C', 'o', 'n', 't', 'e', 'n', 't', '-', 'L', 'e', 'n', 'g', 't', 'h']

def headerSentinel : List UInt8 := encode (contentLength ++ [':'])
def headerEndCrlf : List UInt8 := [0x0D, 0x0A, 0x0D, 0x0A]
def headerEndLf : List UInt8 := [0x0A, 0x0A]
def resyncTailBytes : Nat := 8 * 1024
def maxDesyncBufferBytes : Nat := 64 * 1024
def maxHeaderBytes : Nat := 4 * 1024
def maxFrameSize : Nat := 16 * 1024 * 1024

inductive FramingError where
  | invalidHeader
  | invalidHeaderUtf8
  | missingContentLength
  | invalidContentLength
  | frameTooLarge (len : Nat)
  deriving DecidableEq, Repr

inductive ContentLengthParse where
  | found (len : Nat)
  | missing
  | invalid
  | malformedHeader
  deriving DecidableEq, Repr

structure ContentLengthFramer where
  buf : List UInt8 := []
  deriving DecidableEq, Repr

/-- `hay.windows(width).position(accept)`, for a positive width. -/
def position (width : Nat) (accept : List UInt8 → Bool) : List UInt8 → Option Nat
  | [] => none
  | byte :: rest =>
    if width ≤ rest.length + 1 && accept ((byte :: rest).take width) then some 0
    else (position width accept rest).map (· + 1)

def toAsciiLowercase (byte : UInt8) : UInt8 :=
  if 0x41 ≤ byte ∧ byte ≤ 0x5A then byte + 0x20 else byte

def findHeaderStart (hay : List UInt8) : Option Nat :=
  position headerSentinel.length
    (fun window => window.map toAsciiLowercase == headerSentinel.map toAsciiLowercase) hay

def findSubslice (hay needle : List UInt8) : Option Nat :=
  if needle.isEmpty then some 0 else position needle.length (· == needle) hay

def findHeaderEnd (hay : List UInt8) : Option (Nat × Nat) :=
  let crlfEnd := (findSubslice hay headerEndCrlf).map fun index => (index, headerEndCrlf.length)
  let lfEnd := (findSubslice hay headerEndLf).map fun index => (index, headerEndLf.length)
  match crlfEnd, lfEnd with
  | some crlf, some lf => some (if crlf.1 ≤ lf.1 then crlf else lf)
  | some crlf, none => some crlf
  | none, some lf => some lf
  | none, none => none

-- The loop over header lines: the last `Content-Length` field wins.
def parseHeaderLines : Option Nat → List (List Char) → ContentLengthParse
  | some len, [] => .found len
  | none, [] => .missing
  | found, rawLine :: rest =>
    let line := trimEndMatches '\r' rawLine
    if line.isEmpty then parseHeaderLines found rest
    else
      match splitOnce ':' line with
      | none => .malformedHeader
      | some (name, value) =>
        if eqIgnoreAsciiCase (trim name) contentLength then
          match parseUsize (trim value) with
          | some len => parseHeaderLines (some len) rest
          | none => .invalid
        else parseHeaderLines found rest

def parseContentLength (header : List Char) : ContentLengthParse :=
  parseHeaderLines none (lines header)

namespace ContentLengthFramer
variable (framer : ContentLengthFramer)

def resyncIfNeeded : ContentLengthFramer :=
  match findHeaderStart framer.buf with
  | some prefixLen => ⟨framer.buf.drop prefixLen⟩
  | none =>
    if maxDesyncBufferBytes < framer.buf.length then
      let keep := min resyncTailBytes framer.buf.length
      ⟨framer.buf.drop (framer.buf.length - keep)⟩
    else framer

def push (bytes : List UInt8) : ContentLengthFramer :=
  resyncIfNeeded ⟨framer.buf ++ bytes⟩

def consumeHeaderBlock (headerEnd headerLen : Nat) : ContentLengthFramer :=
  let drainTo := min (headerEnd + headerLen) framer.buf.length
  resyncIfNeeded ⟨framer.buf.drop drainTo⟩

-- The branch of `try_next` for a buffer without a sentinel.
def tryUnanchored : Except FramingError (Option (List UInt8)) × ContentLengthFramer :=
  match findHeaderEnd framer.buf with
  | none => (.ok none, framer)
  | some (headerEnd, headerLen) =>
    let consumed := framer.consumeHeaderBlock headerEnd headerLen
    match decode (framer.buf.take headerEnd) with
    | none => (.error .invalidHeaderUtf8, consumed)
    | some header =>
      let hasHeaderShape :=
        (lines header).any fun line => !(trim line).isEmpty && line.contains ':'
      if hasHeaderShape then (.error .missingContentLength, consumed)
      else (.error .invalidHeader, consumed)

-- The rest of `try_next`, once the buffer starts with the sentinel.
def tryAnchored : Except FramingError (Option (List UInt8)) × ContentLengthFramer :=
  match findHeaderEnd framer.buf with
  | none =>
    if maxHeaderBytes < framer.buf.length then (.error .invalidHeader, ⟨[]⟩)
    else (.ok none, framer)
  | some (headerEnd, headerLen) =>
    let consumed := framer.consumeHeaderBlock headerEnd headerLen
    match decode (framer.buf.take headerEnd) with
    | none => (.error .invalidHeaderUtf8, consumed)
    | some header =>
      match parseContentLength header with
      | .missing => (.error .missingContentLength, consumed)
      | .invalid => (.error .invalidContentLength, consumed)
      | .malformedHeader => (.error .invalidHeader, consumed)
      | .found len =>
        let bodyStart := headerEnd + headerLen
        let bodyEnd := bodyStart + len
        if maxFrameSize < len then (.error (.frameTooLarge len), consumed)
        else if usizeMax < bodyStart then (.error .invalidContentLength, consumed)
        else if usizeMax < bodyEnd then (.error .invalidContentLength, consumed)
        else if framer.buf.length < bodyEnd then (.ok none, framer)
        else
          (.ok (some ((framer.buf.drop bodyStart).take len)),
            resyncIfNeeded ⟨framer.buf.drop bodyEnd⟩)

def tryNext : Except FramingError (Option (List UInt8)) × ContentLengthFramer :=
  let framer := framer.resyncIfNeeded
  match findHeaderStart framer.buf with
  | none => framer.tryUnanchored
  | some start => tryAnchored ⟨framer.buf.drop start⟩

end ContentLengthFramer

open ContentLengthFramer

def frame (body : List UInt8) : List UInt8 :=
  encode (contentLength ++ [':', ' '] ++ decimal body.length ++ ['\r', '\n', '\r', '\n']) ++ body

section Search
variable (width : Nat) (accept : List UInt8 → Bool)

theorem position_sound (hay : List UInt8) (index : Nat) (found : position width accept hay = some index) :
    index + width ≤ hay.length ∧ accept ((hay.drop index).take width) = true := by
  induction hay generalizing index with
  | nil => simp [position] at found
  | cons byte rest ih =>
    rw [position] at found
    split at found
    · rename_i hit
      obtain rfl := Option.some.inj found
      simpa using hit
    obtain ⟨before, earlier, rfl⟩ := Option.map_eq_some_iff.mp found
    have tail := ih before earlier
    simp only [length_cons]
    exact ⟨by omega, tail.2⟩

section
variable (hay : List UInt8) (index : Nat) (positive : 0 < width) (fits : index + width ≤ hay.length)
    (hit : accept ((hay.drop index).take width) = true)
include hay index positive fits hit

theorem position_first
    (misses : ∀ earlier, earlier < index → accept ((hay.drop earlier).take width) = false) :
    position width accept hay = some index := by
  induction hay generalizing index with
  | nil =>
    simp only [length_nil] at fits
    omega
  | cons byte rest ih =>
    simp only [length_cons] at fits
    cases index with
    | zero =>
      have room : width ≤ rest.length + 1 := by omega
      have taken : accept ((byte :: rest).take width) = true := hit
      simp [position, room, taken]
    | succ before =>
      have missed : accept ((byte :: rest).take width) = false := misses 0 (by omega)
      have tail := ih before (by omega) hit (fun earlier less => misses (earlier + 1) (by omega))
      simp [position, missed, tail]

/-- A window that is accepted is found, or an earlier one is. -/
theorem position_met : ∃ first, position width accept hay = some first ∧ first ≤ index := by
  induction hay generalizing index with
  | nil =>
    simp only [length_nil] at fits
    omega
  | cons byte rest ih =>
    simp only [length_cons] at fits
    rw [position]
    split
    · exact ⟨0, rfl, Nat.zero_le _⟩
    rename_i missed
    cases index with
    | zero =>
      have room : width ≤ rest.length + 1 := by omega
      have taken : accept ((byte :: rest).take width) = true := hit
      simp [room, taken] at missed
    | succ before =>
      obtain ⟨first, found, earlier⟩ := ih before (by omega) hit
      exact ⟨first + 1, by rw [found]; rfl, by omega⟩

end

theorem position_none (hay : List UInt8)
    (misses : ∀ index, index + width ≤ hay.length → accept ((hay.drop index).take width) = false) :
    position width accept hay = none := by
  cases found : position width accept hay with
  | none => rfl
  | some index =>
    obtain ⟨fits, hit⟩ := position_sound width accept hay index found
    rw [misses index fits] at hit
    simp at hit

end Search

theorem window_get (hay needle : List UInt8) (index offset : Nat) (byte : UInt8)
    (hit : ((hay.drop index).take needle.length == needle) = true)
    (here : needle[offset]? = some byte) : hay[index + offset]? = some byte := by
  have inside := (List.getElem?_eq_some_iff.mp here).1
  rw [← here]
  conv_rhs => rw [← eq_of_beq hit]
  rw [getElem?_take, if_pos inside, getElem?_drop]

section Termination

theorem resync_shrinks (framer : ContentLengthFramer) :
    framer.resyncIfNeeded.buf.length ≤ framer.buf.length := by
  unfold resyncIfNeeded
  split
  · simp
  · split <;> simp

theorem header_end_width (hay : List UInt8) (headerEnd headerLen : Nat)
    (found : findHeaderEnd hay = some (headerEnd, headerLen)) : 0 < headerLen := by
  have crlf : 0 < headerEndCrlf.length := by decide
  have lf : 0 < headerEndLf.length := by decide
  cases crlfFound : findSubslice hay headerEndCrlf with
  | none =>
    cases lfFound : findSubslice hay headerEndLf with
    | none => simp [findHeaderEnd, crlfFound, lfFound] at found
    | some lfAt =>
      rw [findHeaderEnd, crlfFound, lfFound] at found
      exact (Prod.mk.inj (Option.some.inj found)).2 ▸ lf
  | some crlfAt =>
    cases lfFound : findSubslice hay headerEndLf with
    | none =>
      rw [findHeaderEnd, crlfFound, lfFound] at found
      exact (Prod.mk.inj (Option.some.inj found)).2 ▸ crlf
    | some lfAt =>
      rw [findHeaderEnd, crlfFound, lfFound] at found
      have chosen := Option.some.inj found
      split at chosen
      · exact (Prod.mk.inj chosen).2 ▸ crlf
      · exact (Prod.mk.inj chosen).2 ▸ lf

section
variable (framer next : ContentLengthFramer) (body : List UInt8)
include framer next body

theorem unanchored_no_body : framer.tryUnanchored ≠ (.ok (some body), next) := by
  unfold tryUnanchored
  split
  · simp
  simp only
  split
  · simp
  · split <;> simp

theorem anchored_shrinks (taken : framer.tryAnchored = (.ok (some body), next)) :
    next.buf.length < framer.buf.length := by
  unfold tryAnchored at taken
  split at taken
  · split at taken <;> simp at taken
  rename_i headerEnd headerLen found
  have positive := header_end_width _ _ _ found
  simp only at taken
  split at taken
  · simp at taken
  split at taken
  · simp at taken
  · simp at taken
  · simp at taken
  · rename_i len parsed
    split at taken
    · simp at taken
    split at taken
    · simp at taken
    split at taken
    · simp at taken
    split at taken
    · simp at taken
    obtain ⟨-, rfl⟩ := Prod.mk.inj taken
    have shorter := resync_shrinks ⟨framer.buf.drop (headerEnd + headerLen + len)⟩
    simp only [length_drop] at shorter
    omega

theorem try_next_shrinks (taken : framer.tryNext = (.ok (some body), next)) :
    next.buf.length < framer.buf.length := by
  have resynced := resync_shrinks framer
  unfold tryNext at taken
  simp only at taken
  split at taken
  · exact absurd taken (unanchored_no_body _ _ _)
  · have shorter := anchored_shrinks _ _ _ taken
    simp only [length_drop] at shorter
    omega

end

end Termination

/-- Calling `try_next` until it returns `Ok(None)`, or stopping at an error. -/
def drain (framer : ContentLengthFramer) :
    Except FramingError (List (List UInt8) × ContentLengthFramer) :=
  match taken : framer.tryNext with
  | (.error problem, _) => .error problem
  | (.ok none, next) => .ok ([], next)
  | (.ok (some body), next) =>
    have : next.buf.length < framer.buf.length := try_next_shrinks framer next body taken
    match drain next with
    | .error problem => .error problem
    | .ok (bodies, last) => .ok (body :: bodies, last)
termination_by framer.buf.length

def feed (framer : ContentLengthFramer) :
    List (List UInt8) → Except FramingError (List (List UInt8) × ContentLengthFramer)
  | [] => .ok ([], framer)
  | chunk :: rest => do
      let (bodies, next) ← drain (framer.push chunk)
      let (later, last) ← feed next rest
      return (bodies ++ later, last)

section HeaderBlock

def headerLine (len : Nat) : List Char := contentLength ++ [':', ' '] ++ decimal len

theorem frame_shape (body : List UInt8) :
    frame body = encode (headerLine body.length) ++ headerEndCrlf ++ body := by
  have terminator : encode ['\r', '\n', '\r', '\n'] = headerEndCrlf := by decide
  rw [frame, headerLine, encode_append, terminator]

theorem frame_length (body : List UInt8) :
    (frame body).length = (encode (headerLine body.length)).length + 4 + body.length := by
  have terminator : headerEndCrlf.length = 4 := rfl
  rw [frame_shape, length_append, length_append, terminator]

theorem header_sentinel_first (len : Nat) : ∃ rest, encode (headerLine len) = headerSentinel ++ rest := by
  refine ⟨encode (' ' :: decimal len), ?_⟩
  rfl

theorem encode_digit (digit : Char) (isDigit : digit.isDigit = true) :
    ∃ byte : UInt8, String.utf8EncodeChar digit = [byte] ∧ byte ≠ 0x0D ∧ byte ≠ 0x0A := by
  obtain ⟨low, high⟩ := digit_range digit isDigit
  have value : digit.val.toNat = digit.toNat := rfl
  refine ⟨_, encode_ascii digit (by omega), ?_, ?_⟩ <;>
  · rw [Ne, ← UInt8.toNat_inj, UInt8.toNat_ofNat']
    simp only [UInt8.reduceToNat]
    omega

theorem encode_digits_breakless (digits : List Char) (isDigits : ∀ digit ∈ digits, digit.isDigit = true) :
    (encode digits).length = digits.length ∧ ∀ byte ∈ encode digits, byte ≠ 0x0D ∧ byte ≠ 0x0A := by
  induction digits with
  | nil => simp
  | cons digit rest ih =>
    obtain ⟨byte, single, notCr, notLf⟩ := encode_digit digit (isDigits digit (by simp))
    obtain ⟨size, breakless⟩ := ih fun other member => isDigits other (by simp [member])
    rw [encode_cons, single]
    refine ⟨by simp [size], ?_⟩
    intro other member
    rcases mem_cons.mp member with rfl | later
    · exact ⟨notCr, notLf⟩
    · exact breakless other later

theorem header_line_breakless (len : Nat) : ∀ byte ∈ encode (headerLine len), byte ≠ 0x0D ∧ byte ≠ 0x0A := by
  intro byte member
  rw [headerLine, encode_append] at member
  rcases mem_append.mp member with label | digits
  · have every : (encode (contentLength ++ [':', ' '])).all
        (fun byte => byte != 0x0D && byte != 0x0A) = true := by decide
    simpa using all_eq_true.mp every byte label
  · exact (encode_digits_breakless _ (decimal_digits len)).2 byte digits

theorem header_line_length (len : Nat) (bound : len ≤ maxFrameSize) :
    (encode (headerLine len)).length ≤ 24 := by
  have label : (encode (contentLength ++ [':', ' '])).length = 16 := by decide
  have digits := (encode_digits_breakless _ (decimal_digits len)).1
  have short := decimal_length len 8 (by decide) (lt_of_le_of_lt bound (by decide))
  rw [headerLine, encode_append, length_append]
  omega

theorem parse_header_line (len : Nat) (fits : len ≤ usizeMax) :
    parseContentLength (headerLine len) = .found len := by
  have digits := decimal_digits len
  have absent (scalar : Char) (label : scalar ∉ contentLength ++ [':', ' '])
      (other : scalar.isDigit = false) : scalar ∉ headerLine len := by
    intro member
    rcases mem_append.mp member with early | late
    · exact label early
    · rw [digits scalar late] at other
      simp at other
  have single := lines_single (headerLine len) (absent '\n' (by decide) (by decide)) (by simp [headerLine])
  have bare := trim_end_matches_absent '\r' (headerLine len) (absent '\r' (by decide) (by decide))
  have label : headerLine len = contentLength ++ ':' :: (' ' :: decimal len) := rfl
  have parts := split_once_first ':' contentLength (' ' :: decimal len) (by decide)
  have name : eqIgnoreAsciiCase (trim contentLength) contentLength = true := by
    decide
  have value : trim (' ' :: decimal len) = decimal len := by
    exact trim_bare _ fun digit member => digit_not_whitespace digit (digits digit member)
  rw [parseContentLength, single, parseHeaderLines]
  simp only [bare]
  rw [label, parts]
  simp only [name, value, parse_decimal len fits]
  rfl

/-- Before the last terminator byte has arrived no header end is seen. -/
theorem header_end_pending (line received rest : List UInt8)
    (breakless : ∀ byte ∈ line, byte ≠ 0x0D ∧ byte ≠ 0x0A) (split : received ++ rest = line ++ headerEndCrlf)
    (short : received.length < line.length + 4) : findHeaderEnd received = none := by
  have agree (index : Nat) (inside : index < received.length) :
      received[index]? = (line ++ headerEndCrlf)[index]? := by
    rw [← split, getElem?_append_left inside]
  have early (index : Nat) (byte : UInt8) (inside : index < line.length)
      (here : (line ++ headerEndCrlf)[index]? = some byte) : byte ≠ 0x0D ∧ byte ≠ 0x0A := by
    rw [getElem?_append_left inside] at here
    exact breakless byte (mem_of_getElem? here)
  have noCrlf : findSubslice received headerEndCrlf = none := by
    refine position_none _ _ received ?_
    intro index fits
    change index + 4 ≤ received.length at fits
    by_contra hit
    have first := window_get received headerEndCrlf index 0 0x0D (of_not_eq_false hit) rfl
    rw [Nat.add_zero, agree index (by omega)] at first
    exact (early index 0x0D (by omega) first).1 rfl
  have noLf : findSubslice received headerEndLf = none := by
    refine position_none _ _ received ?_
    intro index fits
    change index + 2 ≤ received.length at fits
    by_contra hit
    have first := window_get received headerEndLf index 0 0x0A (of_not_eq_false hit) rfl
    have second := window_get received headerEndLf index 1 0x0A (of_not_eq_false hit) rfl
    rw [Nat.add_zero, agree index (by omega)] at first
    rw [agree (index + 1) (by omega)] at second
    by_cases inside : index < line.length
    · exact (early index 0x0A inside first).2 rfl
    rw [getElem?_append_right (by omega)] at first second
    have which : index = line.length ∨ index = line.length + 1 := by omega
    rcases which with rfl | rfl
    · simp [headerEndCrlf] at first
    · rw [show line.length + 1 + 1 - line.length = 2 by omega] at second
      simp [headerEndCrlf] at second
  simp [findHeaderEnd, noCrlf, noLf]

/-- Once it has, the header ends right behind the field, whatever follows. -/
theorem header_end_complete (line rest : List UInt8) (breakless : ∀ byte ∈ line, byte ≠ 0x0D ∧ byte ≠ 0x0A) :
    findHeaderEnd (line ++ headerEndCrlf ++ rest) = some (line.length, 4) := by
  have early (index : Nat) (byte : UInt8) (inside : index < line.length)
      (here : (line ++ headerEndCrlf ++ rest)[index]? = some byte) : byte ≠ 0x0D ∧ byte ≠ 0x0A := by
    rw [append_assoc, getElem?_append_left inside] at here
    exact breakless byte (mem_of_getElem? here)
  have crlf : findSubslice (line ++ headerEndCrlf ++ rest) headerEndCrlf = some line.length := by
    refine position_first _ _ _ line.length (by decide) (by simp) ?_ ?_
    · simp
    · intro index less
      by_contra hit
      have first := window_get _ headerEndCrlf index 0 0x0D (of_not_eq_false hit) rfl
      exact (early index 0x0D less first).1 rfl
  have lf (index : Nat) (found : findSubslice (line ++ headerEndCrlf ++ rest) headerEndLf = some index) :
      line.length ≤ index := by
    by_contra less
    obtain ⟨-, hit⟩ := position_sound _ _ _ index found
    have first := window_get _ headerEndLf index 0 0x0A hit rfl
    exact (early index 0x0A (by omega) first).2 rfl
  rw [findHeaderEnd, crlf]
  cases found : findSubslice (line ++ headerEndCrlf ++ rest) headerEndLf with
  | none => rfl
  | some index =>
    simp only [Option.map_some, lf index found]
    rfl

end HeaderBlock

section Stream

def stream (bodies : List (List UInt8)) : List UInt8 := (bodies.map frame).flatten

/-- What is buffered between two pushes: part of the next frame, or nothing
when no frame is left. -/
def Incomplete (received : List UInt8) : List (List UInt8) → Prop
  | [] => received = []
  | body :: _ => received.length < (frame body).length

theorem header_start_anchored (rest : List UInt8) : findHeaderStart (headerSentinel ++ rest) = some 0 := by
  refine position_first _ _ _ 0 (by decide) (by simp) ?_ ?_
  · exact beq_self_eq_true _
  · omega

theorem header_start_short (received : List UInt8)
    (short : received.length < headerSentinel.length) : findHeaderStart received = none := by
  refine position_none _ _ received ?_
  omega

section
variable (received rest : List UInt8) (body : List UInt8) (more : List UInt8)
    (split : received ++ rest = frame body ++ more)
include received rest body more split

/-- The front of a stream is shorter than the sentinel or starts with it. -/
theorem stream_front :
    received.length < headerSentinel.length ∨ ∃ tail, received = headerSentinel ++ tail := by
  by_cases short : received.length < headerSentinel.length
  · exact .inl short
  obtain ⟨after, label⟩ := header_sentinel_first body.length
  rw [frame_shape, label] at split
  simp only [append_assoc] at split
  rcases append_eq_append_iff.mp split with ⟨tail, sentinel, -⟩ | ⟨tail, front, -⟩
  · have sizes := congrArg List.length sentinel
    rw [length_append] at sizes
    have vacant : tail = [] := eq_nil_of_length_eq_zero (by omega)
    exact .inr ⟨[], by rw [sentinel, vacant]; simp⟩
  · exact .inr ⟨tail, front⟩

theorem resync_front : resyncIfNeeded ⟨received⟩ = ⟨received⟩ := by
  rcases stream_front received rest body more split with short | ⟨tail, rfl⟩
  · have small : ¬ maxDesyncBufferBytes < received.length := by
      have width : headerSentinel.length ≤ maxDesyncBufferBytes := by decide
      omega
    simp [resyncIfNeeded, header_start_short received short, small]
  · simp [resyncIfNeeded, header_start_anchored]

end

theorem resync_stream (received rest : List UInt8) (bodies : List (List UInt8))
    (split : received ++ rest = stream bodies) : resyncIfNeeded ⟨received⟩ = ⟨received⟩ := by
  cases bodies with
  | nil =>
    obtain ⟨rfl, -⟩ := append_eq_nil_iff.mp split
    rfl
  | cons body more => exact resync_front received rest body (stream more) split

/-- Behind a complete header block only the amount of body decides. -/
theorem try_anchored_header (len : Nat) (after : List UInt8) (bound : len ≤ maxFrameSize) :
    tryAnchored ⟨encode (headerLine len) ++ headerEndCrlf ++ after⟩ =
      if after.length < len then
        (.ok none, ⟨encode (headerLine len) ++ headerEndCrlf ++ after⟩)
      else (.ok (some (after.take len)), resyncIfNeeded ⟨after.drop len⟩) := by
  have small := header_line_length len bound
  have largest : maxFrameSize + 28 ≤ usizeMax := by decide
  have found := header_end_complete (encode (headerLine len)) after (header_line_breakless len)
  have width : headerEndCrlf.length = 4 := rfl
  have header : (encode (headerLine len) ++ headerEndCrlf ++ after).take
      (encode (headerLine len)).length = encode (headerLine len) := by
    rw [append_assoc, take_left]
  have body : (encode (headerLine len) ++ headerEndCrlf ++ after).drop
      ((encode (headerLine len)).length + 4) = after := by
    rw [← width, ← length_append, drop_left]
  have behind : (encode (headerLine len) ++ headerEndCrlf ++ after).drop
      ((encode (headerLine len)).length + 4 + len) = after.drop len := by
    rw [← drop_drop, body]
  have total : (encode (headerLine len) ++ headerEndCrlf ++ after).length =
      (encode (headerLine len)).length + 4 + after.length := by
    rw [length_append, length_append, width]
  unfold tryAnchored
  simp only [found, header, decode_encode, parse_header_line len (by omega), body, behind, total,
    Nat.add_lt_add_iff_left]
  rw [if_neg (by omega), if_neg (by omega), if_neg (by omega)]

theorem split_front (received rest full more : List UInt8)
    (split : received ++ rest = full ++ more) (short : received.length ≤ full.length) :
    ∃ missing, received ++ missing = full := by
  rcases append_eq_append_iff.mp split with ⟨missing, front, -⟩ | ⟨extra, front, -⟩
  · exact ⟨missing, front.symm⟩
  have sizes := congrArg List.length front
  rw [length_append] at sizes
  have vacant : extra = [] := eq_nil_of_length_eq_zero (by omega)
  exact ⟨[], by rw [front, vacant]; simp⟩

section
variable (received rest body more : List UInt8) (bound : body.length ≤ maxFrameSize)
    (split : received ++ rest = frame body ++ more) (short : received.length < (frame body).length)
include received rest body more bound split short

theorem try_anchored_pending : tryAnchored ⟨received⟩ = (.ok none, ⟨received⟩) := by
  have small := header_line_length body.length bound
  have limit : 28 ≤ maxHeaderBytes := by decide
  have width : (encode (headerLine body.length) ++ headerEndCrlf).length =
      (encode (headerLine body.length)).length + 4 := length_append
  rw [frame_shape, append_assoc] at split
  by_cases cut : received.length < (encode (headerLine body.length)).length + 4
  · obtain ⟨missing, front⟩ := split_front received rest _ _ split (by omega)
    have pending := header_end_pending _ received missing (header_line_breakless body.length) front cut
    rw [tryAnchored, pending]
    simp only
    rw [if_neg (by omega)]
  · obtain ⟨after, front⟩ := split_front _ _ received rest split.symm (by omega)
    have some : after.length < body.length := by
      have sizes := congrArg List.length front
      rw [length_append] at sizes
      rw [frame_length] at short
      omega
    rw [← front, try_anchored_header body.length after bound, if_pos some]

theorem try_next_pending : tryNext ⟨received⟩ = (.ok none, ⟨received⟩) := by
  have resynced := resync_front received rest body more split
  have anchored := try_anchored_pending received rest body more bound split short
  unfold tryNext
  simp only [resynced]
  rcases stream_front received rest body more split with cut | ⟨tail, rfl⟩
  · have line : (encode (headerLine body.length)).length ≥ headerSentinel.length := by
      obtain ⟨after, label⟩ := header_sentinel_first body.length
      rw [label, length_append]
      omega
    rw [frame_shape, append_assoc] at split
    obtain ⟨missing, front⟩ := split_front received rest _ _ split (by
      rw [length_append]
      omega)
    have pending := header_end_pending _ received missing (header_line_breakless body.length) front
      (by omega)
    rw [header_start_short received cut]
    simp [tryUnanchored, pending]
  · exact anchored

end

theorem try_next_complete (body received rest : List UInt8) (bodies : List (List UInt8))
    (bound : body.length ≤ maxFrameSize) (split : received ++ rest = stream bodies) :
    tryNext ⟨frame body ++ received⟩ = (.ok (some body), ⟨received⟩) := by
  have resynced := resync_front (frame body ++ received) [] body received (append_nil _)
  have settled := resync_stream received rest bodies split
  obtain ⟨after, label⟩ := header_sentinel_first body.length
  have anchored : findHeaderStart (frame body ++ received) = some 0 := by
    rw [frame_shape, label]
    exact header_start_anchored _
  have extracted := try_anchored_header body.length (body ++ received) bound
  rw [if_neg (by simp), take_left, drop_left, settled, ← append_assoc, ← frame_shape] at extracted
  unfold tryNext
  simp only [resynced, anchored]
  exact extracted

theorem drain_pending (framer : ContentLengthFramer) (pending : framer.tryNext = (.ok none, framer)) :
    drain framer = .ok ([], framer) := by
  rw [drain]
  split
  · rename_i problem next taken
    rw [pending] at taken
    simp at taken
  · rename_i next taken
    rw [pending] at taken
    obtain ⟨-, rfl⟩ := Prod.mk.inj taken
    rfl
  · rename_i body next taken
    rw [pending] at taken
    simp at taken

theorem drain_taken (framer next last : ContentLengthFramer) (body : List UInt8)
    (bodies : List (List UInt8)) (taken : framer.tryNext = (.ok (some body), next))
    (drained : drain next = .ok (bodies, last)) : drain framer = .ok (body :: bodies, last) := by
  rw [drain]
  split
  · rename_i problem other otherTaken
    rw [taken] at otherTaken
    simp at otherTaken
  · rename_i other otherTaken
    rw [taken] at otherTaken
    simp at otherTaken
  · rename_i same other otherTaken
    rw [taken] at otherTaken
    obtain ⟨first, rfl⟩ := Prod.mk.inj otherTaken
    obtain rfl := Option.some.inj (Except.ok.inj first)
    simp [drained]

/-- Draining a stream's front takes out its complete frames and leaves the incomplete one. -/
theorem drain_stream (bodies : List (List UInt8)) (received rest : List UInt8)
    (bounds : ∀ body ∈ bodies, body.length ≤ maxFrameSize) (split : received ++ rest = stream bodies) :
    ∃ done waiting left, bodies = done ++ waiting ∧ drain ⟨received⟩ = .ok (done, ⟨left⟩) ∧
      left ++ rest = stream waiting ∧ Incomplete left waiting := by
  induction bodies generalizing received with
  | nil =>
    obtain ⟨rfl, rfl⟩ := append_eq_nil_iff.mp split
    exact ⟨[], [], [], rfl, drain_pending ⟨[]⟩ rfl, rfl, rfl⟩
  | cons body more ih =>
    have bound := bounds body (by simp)
    have parts : stream (body :: more) = frame body ++ stream more := rfl
    by_cases short : received.length < (frame body).length
    · have pending := try_next_pending received rest body (stream more) bound split short
      exact ⟨[], body :: more, received, rfl, drain_pending ⟨received⟩ pending, split, short⟩
    obtain ⟨after, rfl⟩ := split_front (frame body) (stream more) received rest
      (by rw [split, parts]) (by omega)
    have tail : after ++ rest = stream more := by
      rw [parts, append_assoc] at split
      exact append_cancel_left split
    obtain ⟨done, waiting, left, shape, drained, remains, incomplete⟩ :=
      ih after (fun other member => bounds other (by simp [member])) tail
    have taken := try_next_complete body after rest more bound tail
    exact ⟨body :: done, waiting, left, by rw [shape]; rfl,
      drain_taken _ _ _ _ _ taken drained, remains, incomplete⟩

/-- The step for one chunk, folded over all of them: what has come of a stream yields the frames that
are complete. -/
theorem feed_front (chunks : List (List UInt8)) (bodies : List (List UInt8)) (received rest : List UInt8)
    (bounds : ∀ body ∈ bodies, body.length ≤ maxFrameSize)
    (split : received ++ (chunks.flatten ++ rest) = stream bodies)
    (incomplete : Incomplete received bodies) :
    ∃ done waiting left, bodies = done ++ waiting ∧ feed ⟨received⟩ chunks = .ok (done, ⟨left⟩) ∧
      left ++ rest = stream waiting ∧ Incomplete left waiting := by
  induction chunks generalizing bodies received with
  | nil => exact ⟨[], bodies, received, rfl, rfl, split, incomplete⟩
  | cons chunk more ih =>
    rw [flatten_cons, append_assoc, ← append_assoc] at split
    have pushed : push ⟨received⟩ chunk = ⟨received ++ chunk⟩ := resync_stream _ _ bodies split
    obtain ⟨done, waiting, left, rfl, drained, remains, open_⟩ := drain_stream bodies _ _ bounds split
    obtain ⟨later, last, tail, rfl, fed, ends, short⟩ := ih waiting left
      (fun body member => bounds body (mem_append_right done member)) remains open_
    refine ⟨done ++ later, last, tail, (append_assoc _ _ _).symm, ?_, ends, short⟩
    simp [feed, pushed, drained, fed, bind, Except.bind, pure, Except.pure]

theorem incomplete_nil (bodies : List (List UInt8)) : Incomplete [] bodies := by
  cases bodies with
  | nil => rfl
  | cons body more =>
    change 0 < (frame body).length
    rw [frame_length]
    omega

theorem feed_stream (chunks : List (List UInt8)) (bodies : List (List UInt8)) (received : List UInt8)
    (bounds : ∀ body ∈ bodies, body.length ≤ maxFrameSize)
    (split : received ++ chunks.flatten = stream bodies) (incomplete : Incomplete received bodies) :
    feed ⟨received⟩ chunks = .ok (bodies, ⟨[]⟩) := by
  rw [← append_nil chunks.flatten] at split
  obtain ⟨done, waiting, left, rfl, fed, remains, short⟩ :=
    feed_front chunks bodies received [] bounds split incomplete
  rw [append_nil] at remains
  cases waiting with
  | nil => rw [fed, append_nil, show left = [] from short]
  | cons body more =>
    have bound : left.length < (frame body).length := short
    have sizes := congrArg List.length remains
    rw [stream, map_cons, flatten_cons, length_append] at sizes
    omega

end Stream

/-- However a stream of framed bodies is cut into chunks, feeding them yields the bodies in order,
no error, and an empty buffer. -/
theorem framed_stream_extracted (bodies chunks : List (List UInt8))
    (bounds : ∀ body ∈ bodies, body.length ≤ maxFrameSize)
    (partition : chunks.flatten = (bodies.map frame).flatten) :
    feed {} chunks = .ok (bodies, {}) := by
  refine feed_stream chunks bodies [] bounds partition ?_
  cases bodies with
  | nil => rfl
  | cons body more =>
    change 0 < (frame body).length
    rw [frame_length]
    omega

-- A body that looks like a header, cut inside the sentinel and inside the body.
theorem framed_stream_header_like_body :
    feed {} [(frame headerSentinel).take 7, [], (frame headerSentinel).drop 7 ++ frame []] =
      .ok ([headerSentinel, []], {}) :=
  framed_stream_extracted [headerSentinel, []] _ (by decide) (by decide)

end PerlLsp.Framing
