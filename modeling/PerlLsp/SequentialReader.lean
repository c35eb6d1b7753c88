import PerlLsp.FrameRecovery

/-! `read_message_outcome` of perl-lsp-rs-core/src/transport/incoming.rs: the second reader of the
framed stream, which takes header line by line off a buffered reader. It stands against
`ContentLengthFramer` on streams of frames and of header blocks whose length value cannot be parsed:
such a value is reported from the middle of its block, so what is left becomes the next header. -/
namespace PerlLsp.SequentialReader
open Text Utf8 Framing ContentLengthFramer FrameRecovery List Nat Option Bool

/-- `read_until(b'\n', &mut line)`: the line with its line feed, and what follows. -/
def readUntilLf : List UInt8 → List UInt8 × List UInt8
  | [] => ([], [])
  | byte :: rest =>
    if byte = 0x0A then ([byte], rest)
    else
      let later := readUntilLf rest
      (byte :: later.1, later.2)

theorem read_until_split (stream : List UInt8) :
    (readUntilLf stream).1 ++ (readUntilLf stream).2 = stream := by
  induction stream with
  | nil => rfl
  | cons byte rest ih =>
    rw [readUntilLf]
    split
    · rfl
    · exact congrArg (byte :: ·) ih

theorem read_until_shrinks {stream : List UInt8} (given : (readUntilLf stream).1 ≠ []) :
    (readUntilLf stream).2.length < stream.length := by
  have sizes := congrArg List.length (read_until_split stream)
  rw [length_append] at sizes
  have positive := length_pos_iff.mpr given
  omega

def isHeaderTerminator (line : List UInt8) : Bool := line == [0x0D, 0x0A] || line == [0x0A]

def trimHeaderCrlf (line : List UInt8) : List UInt8 :=
  let withoutLf := if line.getLast? = some 0x0A then line.dropLast else line
  if withoutLf.getLast? = some 0x0D then withoutLf.dropLast else withoutLf

def drainToHeaderEnd (stream : List UInt8) : List UInt8 :=
  if given : (readUntilLf stream).1 = [] then (readUntilLf stream).2
  else if isHeaderTerminator (readUntilLf stream).1 then (readUntilLf stream).2
  else
    have : (readUntilLf stream).2.length < stream.length := read_until_shrinks given
    drainToHeaderEnd (readUntilLf stream).2
termination_by stream.length

def startsWithAsciiPrefix (bytes sentinel : List UInt8) : Bool :=
  if bytes.isEmpty then false
  else
    let prefixLen := min bytes.length sentinel.length
    (bytes.take prefixLen).map toAsciiLowercase == (sentinel.take prefixLen).map toAsciiLowercase

def looksLikeLspHeaderPrefix (bytes : List UInt8) : Bool :=
  startsWithAsciiPrefix bytes
      (encode ['c', 'o', 'n', 't', 'e', 'n', 't', '-', 'l', 'e', 'n', 'g', 't', 'h', ':']) ||
    startsWithAsciiPrefix bytes
      (encode ['c', 'o', 'n', 't', 'e', 'n', 't', '-', 't', 'y', 'p', 'e', ':'])

/-- The value of a header line that names the length field: `none` inside where it is no number. -/
def lengthField (line : List Char) : Option (Option Nat) :=
  match splitOnce ':' line with
  | none => none
  | some (name, value) =>
    if eqIgnoreAsciiCase (trim name) contentLength then some (parseUsize (trim value)) else none

section Reader

-- What the buffered reader holds of the stream when it is asked.
variable (fillBuf : List UInt8 → List UInt8)

def recoverAfterMalformedHeader (stream : List UInt8) (claimedLength : Option Nat) : List UInt8 :=
  match claimedLength.filter fun len => 0 < len && len ≤ maxFrameSize with
  | none => stream
  | some length =>
    let available := fillBuf stream
    if available.isEmpty || looksLikeLspHeaderPrefix available then stream
    else stream.drop length

-- The part of `read_message_outcome` behind the header.
def readBody (contentLength : Option Nat) (stream : List UInt8) : Option Answer × List UInt8 :=
  match contentLength with
  | none => (some (.error .missingContentLength), stream)
  | some length =>
    if maxFrameSize < length then (some (.error (.frameTooLarge length)), stream)
    else if stream.length < length then (none, [])
    else (some (.ok (stream.take length)), stream.drop length)

-- The loop over header lines.
def readHeader (contentLength : Option Nat) (stream : List UInt8) : Option Answer × List UInt8 :=
  let line := (readUntilLf stream).1
  let rest := (readUntilLf stream).2
  if given : line = [] then (none, rest)
  else if isHeaderTerminator line then readBody contentLength rest
  else
    have : rest.length < stream.length := read_until_shrinks given
    match decode (trimHeaderCrlf line) with
    | none =>
      (some (.error .invalidHeaderUtf8),
        recoverAfterMalformedHeader fillBuf (drainToHeaderEnd rest) contentLength)
    | some header =>
      match lengthField header with
      | none => readHeader contentLength rest
      | some (some length) => readHeader (some length) rest
      | some none => (some (.error .invalidContentLength), rest)
termination_by stream.length

def readMessageOutcome (stream : List UInt8) : Option Answer × List UInt8 :=
  readHeader fillBuf none stream

theorem drain_to_header_end_shrinks (stream : List UInt8) :
    (drainToHeaderEnd stream).length ≤ stream.length := by
  induction stream using drainToHeaderEnd.induct with
  | case1 stream nothing =>
    rw [drainToHeaderEnd, dif_pos nothing]
    have sizes := congrArg List.length (read_until_split stream)
    rw [length_append] at sizes
    omega
  | case2 stream given terminator =>
    rw [drainToHeaderEnd, dif_neg given, if_pos terminator]
    exact Nat.le_of_lt (read_until_shrinks given)
  | case3 stream given terminator shorter ih =>
    rw [drainToHeaderEnd, dif_neg given, if_neg terminator]
    exact Nat.le_trans ih (Nat.le_of_lt shorter)

theorem recover_shrinks (stream : List UInt8) (claimedLength : Option Nat) :
    (recoverAfterMalformedHeader fillBuf stream claimedLength).length ≤ stream.length := by
  rw [recoverAfterMalformedHeader]
  split
  · exact Nat.le_refl _
  dsimp only
  split
  · exact Nat.le_refl _
  · rw [length_drop]
    exact sub_le _ _

theorem read_body_shrinks (contentLength : Option Nat) (stream : List UInt8) :
    (readBody contentLength stream).2.length ≤ stream.length := by
  cases contentLength with
  | none => exact Nat.le_refl _
  | some length =>
    rw [readBody]
    split
    · exact Nat.le_refl _
    split
    · exact Nat.zero_le _
    · rw [length_drop]
      exact sub_le _ _

theorem read_header_shrinks (contentLength : Option Nat) (stream : List UInt8)
    (given : (readHeader fillBuf contentLength stream).1 ≠ none) :
    (readHeader fillBuf contentLength stream).2.length < stream.length := by
  induction contentLength, stream using readHeader.induct with
  | case1 contentLength stream line nothing =>
    rw [readHeader, dif_pos nothing] at given
    exact absurd rfl given
  | case2 contentLength stream line some terminator =>
    rw [readHeader, dif_neg some, if_pos terminator]
    exact Nat.lt_of_le_of_lt (read_body_shrinks _ _) (read_until_shrinks some)
  | case3 contentLength stream line rest some terminator shorter undecoded =>
    rw [readHeader, dif_neg some, if_neg terminator, undecoded]
    exact Nat.lt_of_le_of_lt (Nat.le_trans (recover_shrinks _ _ _) (drain_to_header_end_shrinks _)) shorter
  | case4 contentLength stream line rest some terminator shorter header decoded other ih =>
    rw [readHeader, dif_neg some, if_neg terminator, decoded] at given ⊢
    dsimp only at given ⊢
    rw [other] at given ⊢
    exact Nat.lt_trans (ih given) shorter
  | case5 contentLength stream line rest some terminator shorter header decoded length parsed ih =>
    rw [readHeader, dif_neg some, if_neg terminator, decoded] at given ⊢
    dsimp only at given ⊢
    rw [parsed] at given ⊢
    exact Nat.lt_trans (ih given) shorter
  | case6 contentLength stream line rest some terminator shorter header decoded unparsed =>
    rw [readHeader, dif_neg some, if_neg terminator, decoded]
    dsimp only
    rw [unparsed]
    exact shorter

def readOutcomes (stream : List UInt8) : List Answer :=
  match given : (readMessageOutcome fillBuf stream).1 with
  | none => []
  | some answer =>
    have : (readMessageOutcome fillBuf stream).2.length < stream.length :=
      read_header_shrinks fillBuf none stream (by
        rw [← readMessageOutcome, given]
        exact some_ne_none answer)
    answer :: readOutcomes (readMessageOutcome fillBuf stream).2
termination_by stream.length

theorem read_outcomes_none {stream rest : List UInt8}
    (given : readMessageOutcome fillBuf stream = (none, rest)) : readOutcomes fillBuf stream = [] := by
  rw [readOutcomes]
  split
  · rfl
  · rename_i answer other
    rw [given] at other
    cases other

theorem read_outcomes_some {stream rest : List UInt8} {answer : Answer}
    (given : readMessageOutcome fillBuf stream = (some answer, rest)) :
    readOutcomes fillBuf stream = answer :: readOutcomes fillBuf rest := by
  rw [readOutcomes]
  split
  · rename_i other
    rw [given] at other
    cases other
  rename_i same other
  have left : (readMessageOutcome fillBuf stream).2 = rest := by rw [given]
  rw [given] at other
  obtain rfl := Option.some.inj other
  dsimp only
  rw [left]

end Reader

def lineBytes (line : List Char) : List UInt8 := encode line ++ [0x0D, 0x0A]

def linesBytes (lines : List (List Char)) : List UInt8 := lines.flatMap lineBytes

structure HeaderLine (line : List Char) : Prop where
  breakless : Breakless (encode line)
  colon : ':' ∈ line

def lengths (lines : List (List Char)) : List (Option Nat) := lines.filterMap lengthField

/-- The lines of a header block. The sentinel opens the first of `fields`; what stands before does
not hold it. -/
structure Header where
  before : List (List Char)
  first : List Char
  later : List (List Char)
  lines : ∀ line ∈ before ++ first :: later, HeaderLine line
  others : ∀ line ∈ before, lengthField line = none ∧ findHeaderStart (encode line) = none
  anchored : Anchored (encode first)

def Header.fields (header : Header) : List (List Char) := header.first :: header.later

def Header.bytes (header : Header) : List UInt8 :=
  linesBytes (header.before ++ header.fields) ++ [0x0D, 0x0A]

inductive Item where
  | frame (header : Header) (body : List UInt8) (readable : none ∉ lengths header.fields)
      (announced : (lengths header.fields).getLast? = some (some body.length))
      (fits : body.length ≤ maxFrameSize)
  | malformed (header : Header) (unparsable : none ∈ lengths header.fields)

def Item.bytes : Item → List UInt8
  | frame header body _ _ _ => header.bytes ++ body
  | malformed header _ => header.bytes

def Item.outcome : Item → Answer
  | frame _ body _ _ _ => .ok body
  | malformed _ _ => .error .invalidContentLength

def Item.IsFrame : Item → Prop
  | frame _ _ _ _ _ => True
  | malformed _ _ => False

def itemStream (items : List Item) : List UInt8 := items.flatMap Item.bytes

variable {line : List Char}

theorem HeaderLine.encoded_nonempty (headerLine : HeaderLine line) : encode line ≠ [] := by
  intro empty
  have none : line = [] := size_zero line (by rw [Utf8.size, empty]; rfl)
  exact absurd headerLine.colon (none ▸ not_mem_nil)

theorem lines_bytes_cons (line : List Char) (more : List (List Char)) (rest : List UInt8) :
    linesBytes (line :: more) ++ rest = encode line ++ 0x0D :: 0x0A :: (linesBytes more ++ rest) := by
  rw [linesBytes, flatMap_cons, lineBytes, append_assoc, append_assoc]
  rfl

theorem lines_bytes_append (early later : List (List Char)) :
    linesBytes (early ++ later) = linesBytes early ++ linesBytes later := flatMap_append

theorem item_stream_cons (item : Item) (items : List Item) :
    itemStream (item :: items) = item.bytes ++ itemStream items := flatMap_cons

theorem lengths_cons_none (other : lengthField line = none) (more : List (List Char)) :
    lengths (line :: more) = lengths more := by
  rw [lengths, filterMap_cons_none other]
  rfl

theorem lengths_cons_some {length : Option Nat} (field : lengthField line = some length)
    (more : List (List Char)) : lengths (line :: more) = length :: lengths more := by
  rw [lengths, filterMap_cons_some field]
  rfl

section Lines
variable (fillBuf : List UInt8 → List UInt8)

theorem read_until_line {line : List UInt8} (unbroken : 0x0A ∉ line) (rest : List UInt8) :
    readUntilLf (line ++ 0x0A :: rest) = (line ++ [0x0A], rest) := by
  induction line with
  | nil => rfl
  | cons byte line ih =>
    have other : byte ≠ 0x0A := fun same => unbroken (by rw [same]; exact mem_cons_self)
    have tail := ih fun member => unbroken (mem_cons_of_mem _ member)
    rw [cons_append, readUntilLf, if_neg other, tail]
    rfl

theorem read_until_crlf {line : List UInt8} (breakless : Breakless line) (rest : List UInt8) :
    readUntilLf (line ++ 0x0D :: 0x0A :: rest) = (line ++ [0x0D, 0x0A], rest) := by
  have unbroken : (0x0A : UInt8) ∉ line ++ [0x0D] := by
    intro member
    rcases mem_append.mp member with early | last
    · exact (breakless 0x0A early).2 rfl
    · exact absurd last (by decide)
  have whole := read_until_line unbroken rest
  rw [append_assoc, append_assoc] at whole
  exact whole

theorem read_header_taken {stream line rest : List UInt8} (found : Option Nat)
    (taken : readUntilLf stream = (line, rest)) (given : line ≠ []) : readHeader fillBuf found stream =
      if isHeaderTerminator line then readBody found rest
      else
        match decode (trimHeaderCrlf line) with
        | none =>
          (some (.error .invalidHeaderUtf8),
            recoverAfterMalformedHeader fillBuf (drainToHeaderEnd rest) found)
        | some header =>
          match lengthField header with
          | none => readHeader fillBuf found rest
          | some (some length) => readHeader fillBuf (some length) rest
          | some none => (some (.error .invalidContentLength), rest) := by
  have front : (readUntilLf stream).1 = line := by rw [taken]
  have behind : (readUntilLf stream).2 = rest := by rw [taken]
  rw [readHeader]
  dsimp only
  rw [dif_neg (front ▸ given), front, behind]

theorem read_header_line {line : List Char} (headerLine : HeaderLine line) (found : Option Nat)
    (rest : List UInt8) : readHeader fillBuf found (encode line ++ 0x0D :: 0x0A :: rest) =
      match lengthField line with
      | none => readHeader fillBuf found rest
      | some (some length) => readHeader fillBuf (some length) rest
      | some none => (some (.error .invalidContentLength), rest) := by
  have taken := read_until_crlf headerLine.breakless rest
  have inside : ¬ isHeaderTerminator (encode line ++ [0x0D, 0x0A]) = true := by
    have sizes := length_pos_iff.mpr headerLine.encoded_nonempty
    rw [isHeaderTerminator, or_eq_true, beq_iff_eq, beq_iff_eq]
    rintro (same | same)
    · have widths := congrArg List.length same
      rw [length_append, length_cons, length_cons] at widths
      omega
    · have widths := congrArg List.length same
      rw [length_append, length_cons, length_cons] at widths
      omega
  have trimmed : trimHeaderCrlf (encode line ++ [0x0D, 0x0A]) = encode line := by
    have split : encode line ++ [0x0D, 0x0A] = (encode line ++ [0x0D]) ++ [0x0A] := by
      rw [append_assoc]
      rfl
    rw [trimHeaderCrlf, split]
    simp only [getLast?_concat, ↓reduceIte, dropLast_concat]
  rw [read_header_taken fillBuf found taken (by simp), if_neg inside, trimmed, decode_encode]

theorem read_header_end (found : Option Nat) (rest : List UInt8) :
    readHeader fillBuf found (0x0D :: 0x0A :: rest) = readBody found rest := by
  rw [readHeader]
  rfl

section
variable {lines : List (List Char)} (headerLines : ∀ line ∈ lines, HeaderLine line)
include lines headerLines

/-- Lines whose lengths can all be read leave the last of them. -/
theorem read_header_lines (readable : none ∉ lengths lines) (found : Option Nat) (rest : List UInt8) :
    readHeader fillBuf found (linesBytes lines ++ rest) =
      readHeader fillBuf ((lengths lines).getLast?.getD found) rest := by
  induction lines generalizing found with
  | nil => rfl
  | cons line more ih =>
    have tail := ih fun other member => headerLines other (mem_cons_of_mem _ member)
    rw [lines_bytes_cons, read_header_line fillBuf (headerLines line mem_cons_self)]
    cases field : lengthField line with
    | none =>
      rw [lengths_cons_none field] at readable ⊢
      exact tail readable found
    | some length =>
      rw [lengths_cons_some field] at readable ⊢
      cases length with
      | none => exact absurd mem_cons_self readable
      | some length =>
        rw [getLast?_cons]
        exact tail (fun member => readable (mem_cons_of_mem _ member)) (some length)

/-- The first length that cannot be read ends the call in the middle of the block. -/
theorem read_header_unparsable (unparsable : none ∈ lengths lines) (found : Option Nat) (rest : List UInt8) :
    ∃ early bad later, lines = early ++ bad :: later ∧ lengthField bad = some none ∧
      readHeader fillBuf found (linesBytes lines ++ rest) =
        (some (.error .invalidContentLength), linesBytes later ++ rest) := by
  induction lines generalizing found with
  | nil => exact absurd unparsable not_mem_nil
  | cons line more ih =>
    have tail := ih fun other member => headerLines other (mem_cons_of_mem _ member)
    have head := read_header_line fillBuf (headerLines line mem_cons_self) found (linesBytes more ++ rest)
    rw [lines_bytes_cons, head]
    cases field : lengthField line with
    | none =>
      rw [lengths_cons_none field] at unparsable
      obtain ⟨early, bad, later, rfl, unread, outcome⟩ := tail unparsable found
      exact ⟨line :: early, bad, later, rfl, unread, outcome⟩
    | some length =>
      rw [lengths_cons_some field] at unparsable
      cases length with
      | none => exact ⟨[], line, more, rfl, field, rfl⟩
      | some length =>
        have behind : none ∈ lengths more := by
          rcases mem_cons.mp unparsable with same | behind
          · cases same
          · exact behind
        obtain ⟨early, bad, later, rfl, unread, outcome⟩ := tail behind (some length)
        exact ⟨line :: early, bad, later, rfl, unread, outcome⟩

end

end Lines

theorem position_skip (width : Nat) (accept : List UInt8 → Bool) (skipped rest : List UInt8)
    (misses : ∀ index < skipped.length, accept (((skipped ++ rest).drop index).take width) = false) :
    position width accept (skipped ++ rest) = (position width accept rest).map (· + skipped.length) := by
  induction skipped with
  | nil =>
    rw [nil_append]
    cases position width accept rest with
    | none => rfl
    | some index => rfl
  | cons byte skipped ih =>
    have missed := misses 0 (zero_lt_succ _)
    have tail := ih fun index less => misses (index + 1) (succ_lt_succ less)
    rw [drop_zero, cons_append] at missed
    rw [cons_append, position, missed, Bool.and_false, if_neg Bool.false_ne_true, tail, Option.map_map]
    rfl

theorem header_start_line {line : List UInt8} (free : findHeaderStart line = none) (rest : List UInt8) :
    findHeaderStart (line ++ 0x0D :: 0x0A :: rest) = (findHeaderStart rest).map (· + (line.length + 2)) := by
  have split : line ++ 0x0D :: 0x0A :: rest = (line ++ [0x0D, 0x0A]) ++ rest := by
    rw [append_assoc]
    rfl
  have width : (line ++ [(0x0D : UInt8), 0x0A]).length = line.length + 2 := length_append
  rw [findHeaderStart, split, ← width]
  refine position_skip _ _ (line ++ [0x0D, 0x0A]) rest ?_
  intro index less
  by_contra hit
  have sentinel : Sentinel (((line ++ [0x0D, 0x0A] ++ rest).drop index).take headerSentinel.length) :=
    eq_of_beq (of_not_eq_false hit)
  -- A break of the line inside the window would be one of the sentinel's bytes.
  have inside (offset : Nat) (byte : UInt8) (near : offset < 15)
      (there : (line ++ [0x0D, 0x0A] ++ rest)[index + offset]? = some byte) :
      byte ≠ 0x0D ∧ byte ≠ 0x0A := by
    apply sentinel.breakless byte
    apply mem_of_getElem? (i := offset)
    have reach : offset < headerSentinel.length := near
    rw [getElem?_take, if_pos reach, getElem?_drop]
    exact there
  by_cases fits : index + 15 ≤ line.length
  · rw [append_assoc, drop_append_of_le_length (by omega),
      take_append_of_le_length (by rw [length_drop]; exact Nat.le_sub_of_add_le' fits)]
      at sentinel
    obtain ⟨first, found, -⟩ := position_met headerSentinel.length
      (fun window => window.map toAsciiLowercase == headerSentinel.map toAsciiLowercase) line index
      (by decide) fits (beq_iff_eq.mpr sentinel)
    rw [findHeaderStart, found] at free
    cases free
  · by_cases early : index ≤ line.length
    · refine (inside (line.length - index) 0x0D (by omega) ?_).1 rfl
      rw [← split, getElem?_append_right (by omega)]
      have here : index + (line.length - index) - line.length = 0 := by omega
      rw [here]
      rfl
    · refine (inside 0 0x0A (by omega) ?_).2 rfl
      rw [← split, getElem?_append_right (by omega)]
      have here : index + 0 - line.length = 1 := by omega
      rw [here]
      rfl

/-- The search for the end of the header passes over a line behind which another one starts. -/
theorem header_end_line {line : List UInt8} (breakless : Breakless line) {start : UInt8}
    (plain : start ≠ 0x0D ∧ start ≠ 0x0A) (rest : List UInt8) :
    findHeaderEnd (line ++ 0x0D :: 0x0A :: start :: rest) =
      (findHeaderEnd (start :: rest)).map fun block => (block.1 + (line.length + 2), block.2) := by
  have split : line ++ 0x0D :: 0x0A :: start :: rest = (line ++ [0x0D, 0x0A]) ++ (start :: rest) := by
    rw [append_assoc]
    rfl
  have width : (line ++ [(0x0D : UInt8), 0x0A]).length = line.length + 2 := length_append
  have early (index : Nat) (byte : UInt8) (inside : index < line.length)
      (here : (line ++ 0x0D :: 0x0A :: start :: rest)[index]? = some byte) :
      byte ≠ 0x0D ∧ byte ≠ 0x0A := by
    rw [getElem?_append_left inside] at here
    exact breakless byte (mem_of_getElem? here)
  have later (offset : Nat) : (line ++ 0x0D :: 0x0A :: start :: rest)[line.length + offset]? =
      (0x0D :: 0x0A :: start :: rest)[offset]? := by
    rw [getElem?_append_right (Nat.le_add_right _ _), Nat.add_sub_cancel_left]
  have crlf : findSubslice (line ++ 0x0D :: 0x0A :: start :: rest) headerEndCrlf =
      (findSubslice (start :: rest) headerEndCrlf).map (· + (line.length + 2)) := by
    rw [findSubslice, findSubslice, if_neg (by decide), if_neg (by decide), split, ← width]
    refine position_skip _ _ (line ++ [0x0D, 0x0A]) (start :: rest) ?_
    rw [width, ← split]
    intro index less
    by_contra hit
    have first := window_get _ headerEndCrlf index 0 0x0D (of_not_eq_false hit) rfl
    have third := window_get _ headerEndCrlf index 2 0x0D (of_not_eq_false hit) rfl
    rcases Nat.lt_trichotomy index line.length with inside | rfl | beyond
    · exact (early index 0x0D inside first).1 rfl
    · rw [later 2] at third
      exact plain.1 (Option.some.inj third)
    · obtain rfl : index = line.length + 1 := by omega
      rw [later 1] at first
      cases Option.some.inj first
  have lf : findSubslice (line ++ 0x0D :: 0x0A :: start :: rest) headerEndLf =
      (findSubslice (start :: rest) headerEndLf).map (· + (line.length + 2)) := by
    rw [findSubslice, findSubslice, if_neg (by decide), if_neg (by decide), split, ← width]
    refine position_skip _ _ (line ++ [0x0D, 0x0A]) (start :: rest) ?_
    rw [width, ← split]
    intro index less
    by_contra hit
    have first := window_get _ headerEndLf index 0 0x0A (of_not_eq_false hit) rfl
    have second := window_get _ headerEndLf index 1 0x0A (of_not_eq_false hit) rfl
    rcases Nat.lt_trichotomy index line.length with inside | rfl | beyond
    · exact (early index 0x0A inside first).2 rfl
    · rw [later 0] at first
      cases Option.some.inj first
    · obtain rfl : index = line.length + 1 := by omega
      rw [Nat.add_assoc, later 2] at second
      exact plain.2 (Option.some.inj second)
  rw [findHeaderEnd, findHeaderEnd, crlf, lf]
  cases findSubslice (start :: rest) headerEndCrlf with
  | none =>
    cases findSubslice (start :: rest) headerEndLf with
    | none => rfl
    | some index => rfl
  | some first =>
    cases findSubslice (start :: rest) headerEndLf with
    | none => rfl
    | some second =>
      simp only [map_some, Nat.add_le_add_iff_right]
      split
      · rfl
      · rfl

/-- The text of a header, its last line break apart. -/
def joined : List (List Char) → List Char
  | [] => []
  | [line] => line
  | line :: next :: more => line ++ '\r' :: '\n' :: joined (next :: more)

theorem encode_break (text : List Char) : encode ('\r' :: '\n' :: text) = 0x0D :: 0x0A :: encode text := by
  have whole := encode_append ['\r', '\n'] text
  exact whole

theorem lines_bytes_joined (line : List Char) (more : List (List Char)) (rest : List UInt8) :
    linesBytes (line :: more) ++ (0x0D :: 0x0A :: rest) =
      encode (joined (line :: more)) ++ headerEndCrlf ++ rest := by
  induction more generalizing line with
  | nil =>
    rw [lines_bytes_cons, joined, append_assoc]
    rfl
  | cons next more ih =>
    rw [lines_bytes_cons, ih next, joined, encode_append, encode_break, append_assoc,
      append_assoc, append_assoc]
    rfl

theorem header_end_joined {more : List (List Char)}
    (headerLines : ∀ other ∈ line :: more, HeaderLine other) (rest : List UInt8) :
    findHeaderEnd (encode (joined (line :: more)) ++ headerEndCrlf ++ rest) =
      some ((encode (joined (line :: more))).length, 4) := by
  induction more generalizing line with
  | nil => exact header_end_complete _ rest (headerLines line mem_cons_self).breakless
  | cons next more ih =>
    have whole := headerLines line mem_cons_self
    have tail := ih fun other member => headerLines other (mem_cons_of_mem _ member)
    have second := headerLines next (mem_cons_of_mem _ mem_cons_self)
    -- The next line starts with a byte of its own.
    obtain ⟨start, behind, starts⟩ := exists_cons_of_ne_nil second.encoded_nonempty
    have plain := second.breakless start (by rw [starts]; exact mem_cons_self)
    obtain ⟨others, begins⟩ : ∃ others,
        encode (joined (next :: more)) ++ headerEndCrlf ++ rest = start :: others := by
      rw [← lines_bytes_joined, lines_bytes_cons, starts]
      exact ⟨_, rfl⟩
    rw [joined, encode_append, encode_break, append_assoc, append_assoc,
      cons_append, cons_append, ← append_assoc, begins,
      header_end_line whole.breakless plain, ← begins, tail]
    simp only [map_some, length_append, length_cons]
    congr 2
    omega

theorem lines_from_break (unbroken : '\n' ∉ line) (current rest : List Char) :
    linesFrom current (line ++ '\r' :: '\n' :: rest) = (current ++ line) :: linesFrom [] rest := by
  induction line generalizing current with
  | nil =>
    have ended : stripCr (current ++ ['\r']) = current := by
      rw [stripCr, getLast?_concat, if_pos rfl, dropLast_concat]
    rw [nil_append, append_nil, linesFrom, if_neg (by decide), linesFrom, if_pos rfl, ended]
  | cons scalar line ih =>
    have other : scalar ≠ '\n' := fun same => unbroken (by rw [same]; exact mem_cons_self)
    rw [cons_append, linesFrom, if_neg other,
      ih (fun member => unbroken (mem_cons_of_mem _ member)), append_assoc]
    rfl

theorem lines_joined {more : List (List Char)} (headerLines : ∀ other ∈ line :: more, HeaderLine other) :
    Text.lines (joined (line :: more)) = line :: more := by
  induction more generalizing line with
  | nil =>
    have only := headerLines line mem_cons_self
    exact lines_single line (breakless_text only.breakless).2 (ne_nil_of_mem only.colon)
  | cons next more ih =>
    have unbroken := (breakless_text (headerLines line mem_cons_self).breakless).2
    have tail := ih fun other member => headerLines other (mem_cons_of_mem _ member)
    rw [joined, Text.lines, lines_from_break unbroken, ← Text.lines, tail]
    rfl

theorem parse_header_cons (headerLine : HeaderLine line) (found : Option Nat)
    (more : List (List Char)) : parseHeaderLines found (line :: more) =
      match lengthField line with
      | none => parseHeaderLines found more
      | some (some len) => parseHeaderLines (some len) more
      | some none => .invalid := by
  have bare := trim_end_matches_absent '\r' line (breakless_text headerLine.breakless).1
  obtain ⟨name, value, absent, rfl⟩ : ∃ name value, ':' ∉ name ∧ line = name ++ ':' :: value := by
    obtain ⟨name, value, parts, absent⟩ := eq_append_cons_of_mem headerLine.colon
    exact ⟨name, value, absent, parts⟩
  have parts := split_once_first ':' name value absent
  rw [parseHeaderLines, lengthField]
  rw [bare, if_neg (by simp), parts]
  dsimp only
  split
  · cases parseUsize (trim value) with
    | none => rfl
    | some len => rfl
  · rfl

section
variable {lines : List (List Char)} (headerLines : ∀ line ∈ lines, HeaderLine line)
include lines headerLines

theorem parse_header_lines (readable : none ∉ lengths lines) (found : Option Nat) :
    parseHeaderLines found lines = parseHeaderLines ((lengths lines).getLast?.getD found) [] := by
  induction lines generalizing found with
  | nil => rfl
  | cons line more ih =>
    have tail := ih fun other member => headerLines other (mem_cons_of_mem _ member)
    rw [parse_header_cons (headerLines line mem_cons_self)]
    cases field : lengthField line with
    | none =>
      rw [lengths_cons_none field] at readable ⊢
      exact tail readable found
    | some length =>
      rw [lengths_cons_some field] at readable ⊢
      cases length with
      | none => exact absurd mem_cons_self readable
      | some len =>
        rw [getLast?_cons]
        exact tail (fun member => readable (mem_cons_of_mem _ member)) (some len)

theorem parse_header_unparsable (unparsable : none ∈ lengths lines)
    (found : Option Nat) : parseHeaderLines found lines = .invalid := by
  induction lines generalizing found with
  | nil => exact absurd unparsable not_mem_nil
  | cons line more ih =>
    have tail := ih fun other member => headerLines other (mem_cons_of_mem _ member)
    rw [parse_header_cons (headerLines line mem_cons_self)]
    cases field : lengthField line with
    | none =>
      rw [lengths_cons_none field] at unparsable
      exact tail unparsable found
    | some length =>
      rw [lengths_cons_some field] at unparsable
      cases length with
      | none => rfl
      | some len =>
        rcases mem_cons.mp unparsable with same | behind
        · cases same
        · exact tail behind (some len)

end

section
variable (header : Header)
include header

theorem Header.all_lines : ∀ line ∈ header.before ++ header.fields, HeaderLine line := header.lines

theorem Header.field_lines : ∀ line ∈ header.fields, HeaderLine line :=
  fun line member => header.lines line (mem_append_right _ member)

variable (rest : List UInt8)

/-- A block as the framer has it once it stands at the sentinel. -/
theorem header_resync : resyncIfNeeded ⟨header.bytes ++ rest⟩ =
      ⟨encode (joined header.fields) ++ headerEndCrlf ++ rest⟩ := by
  have start (before : List (List Char)) (behind : List UInt8) (anchored : Anchored behind)
      (others : ∀ line ∈ before, findHeaderStart (encode line) = none) :
      findHeaderStart (linesBytes before ++ behind) = some (linesBytes before).length := by
    induction before with
    | nil => exact header_start_zero anchored
    | cons line before ih =>
      have tail := ih fun other member => others other (mem_cons_of_mem _ member)
      have width : (linesBytes (line :: before)).length =
          (linesBytes before).length + ((encode line).length + 2) := by
        rw [linesBytes, flatMap_cons, length_append, lineBytes, length_append, Nat.add_comm]
        rfl
      rw [lines_bytes_cons, header_start_line (others line mem_cons_self), tail, width]
      rfl
  have parts : header.bytes ++ rest =
      linesBytes header.before ++ (encode (joined header.fields) ++ headerEndCrlf ++ rest) := by
    rw [Header.bytes, lines_bytes_append, append_assoc, append_assoc, Header.fields, ← lines_bytes_joined]
    rfl
  have anchored : Anchored (encode (joined header.fields) ++ headerEndCrlf ++ rest) := by
    rw [Header.fields, ← lines_bytes_joined, lines_bytes_cons]
    exact header.anchored.append _
  have found := start header.before _ anchored fun line member => (header.others line member).2
  rw [parts, resyncIfNeeded]
  simp only [found, drop_left]

theorem header_anchored : Anchored (encode (joined header.fields) ++ headerEndCrlf ++ rest) := by
  rw [Header.fields, ← lines_bytes_joined, lines_bytes_cons]
  exact header.anchored.append _

theorem header_consumed : consumeHeaderBlock ⟨encode (joined header.fields) ++ headerEndCrlf ++ rest⟩
      (encode (joined header.fields)).length 4 = resyncIfNeeded ⟨rest⟩ := by
  have width : (encode (joined header.fields) ++ headerEndCrlf).length =
      (encode (joined header.fields)).length + 4 := length_append
  have whole : min ((encode (joined header.fields)).length + 4)
      (encode (joined header.fields) ++ headerEndCrlf ++ rest).length =
        (encode (joined header.fields) ++ headerEndCrlf).length := by
    rw [length_append, width]
    omega
  rw [consumeHeaderBlock]
  dsimp only
  rw [whole, drop_left]

theorem header_parsed : parseContentLength (joined header.fields) = parseHeaderLines none header.fields := by
  rw [parseContentLength, Header.fields, lines_joined header.field_lines]

theorem header_decoded (rest : List UInt8) :
    decode ((encode (joined header.fields) ++ headerEndCrlf ++ rest).take
      (encode (joined header.fields)).length) = some (joined header.fields) := by
  rw [append_assoc, take_left, decode_encode]

theorem header_size : (encode (joined header.fields) ++ headerEndCrlf).length ≤ header.bytes.length := by
  have parts := lines_bytes_joined header.first header.later []
  rw [append_nil] at parts
  rw [Header.fields, ← parts, Header.bytes, lines_bytes_append]
  simp only [length_append]
  exact Nat.add_le_add_right (Nat.le_add_left _ _) _

end

theorem try_next_item (item : Item) (rest : List UInt8) (room : item.bytes.length ≤ usizeMax) :
    tryNext (resyncIfNeeded ⟨item.bytes ++ rest⟩) = (item.outcome.map some, resyncIfNeeded ⟨rest⟩) := by
  cases item with
  | malformed header unparsable =>
    have parsed := header_parsed header
    rw [parse_header_unparsable header.field_lines unparsable] at parsed
    have ends := header_end_joined header.field_lines rest
    rw [← Header.fields] at ends
    rw [Item.bytes, header_resync, try_next_anchored (header_anchored header rest), tryAnchored]
    dsimp only
    rw [ends]
    dsimp only
    rw [header_decoded]
    dsimp only
    rw [parsed]
    exact congrArg (Prod.mk _) (header_consumed header rest)
  | frame header body readable announced fits =>
    have parsed := header_parsed header
    rw [parse_header_lines header.field_lines readable, announced] at parsed
    have ends := header_end_joined header.field_lines (body ++ rest)
    rw [← Header.fields] at ends
    have width : (encode (joined header.fields) ++ headerEndCrlf).length =
        (encode (joined header.fields)).length + 4 := length_append
    have size := header_size header
    rw [Item.bytes, length_append] at room
    rw [Item.bytes, append_assoc, header_resync,
      try_next_anchored (header_anchored header (body ++ rest)), tryAnchored]
    dsimp only
    rw [ends]
    dsimp only
    rw [header_decoded]
    dsimp only
    rw [parsed]
    simp only [getD_some, parseHeaderLines]
    rw [if_neg (by omega), if_neg (by omega), if_neg (by omega), ← width,
      if_neg (by simp only [length_append]; omega), drop_left, take_left,
      ← length_append, ← append_assoc _ body, drop_left]
    rfl

/-- The framer hands out one outcome for each item. -/
theorem framer_outcomes (items : List Item) (room : (itemStream items).length ≤ usizeMax) :
    (drainAll (resyncIfNeeded ⟨itemStream items⟩)).1 = items.map Item.outcome := by
  induction items with
  | nil =>
    have nothing : answered (tryNext (resyncIfNeeded ⟨itemStream []⟩)).1 = none := rfl
    rw [drain_all_none nothing]
    rfl
  | cons item rest ih =>
    rw [item_stream_cons, length_append] at room
    have taken := try_next_item item (itemStream rest) (Nat.le_trans (Nat.le_add_right _ _) room)
    have tail := ih (Nat.le_trans (Nat.le_add_left _ _) room)
    have given : answered (tryNext (resyncIfNeeded ⟨item.bytes ++ itemStream rest⟩)).1 =
        some item.outcome := by
      rw [taken]
      cases item with
      | frame header body readable announced fits => rfl
      | malformed header unparsable => rfl
    rw [item_stream_cons, drain_all_some given, taken, tail]
    rfl

section Stream
variable (fillBuf : List UInt8 → List UInt8)

theorem lengths_append (early later : List (List Char)) :
    lengths (early ++ later) = lengths early ++ lengths later := filterMap_append

theorem Header.before_lengths (header : Header) : lengths header.before = [] := by
  rw [lengths, filterMap_eq_nil_iff]
  exact fun line member => (header.others line member).1

theorem Header.all_lengths (header : Header) :
    lengths (header.before ++ header.fields) = lengths header.fields := by
  rw [lengths_append, header.before_lengths, nil_append]

theorem read_frame {header : Header} {body : List UInt8} (readable : none ∉ lengths header.fields)
    (announced : (lengths header.fields).getLast? = some (some body.length))
    (fits : body.length ≤ maxFrameSize) (rest : List UInt8) :
    readMessageOutcome fillBuf (header.bytes ++ body ++ rest) = (some (.ok body), rest) := by
  have whole := header.all_lengths
  rw [readMessageOutcome, Header.bytes, append_assoc, append_assoc,
    read_header_lines fillBuf header.all_lines (whole ▸ readable), whole, announced]
  refine (read_header_end fillBuf _ (body ++ rest)).trans ?_
  rw [getD_some, readBody, if_neg (Nat.not_lt_of_le fits),
    if_neg (by rw [length_append]; omega), take_left, drop_left]

/-- Streams of frames alone are read to the same outcomes. -/
theorem read_frames {items : List Item} (frames : ∀ item ∈ items, item.IsFrame) (rest : List UInt8) :
    readOutcomes fillBuf (itemStream items ++ rest) =
      items.map Item.outcome ++ readOutcomes fillBuf rest := by
  induction items with
  | nil => rfl
  | cons item items ih =>
    have tail := ih fun other member => frames other (mem_cons_of_mem _ member)
    cases item with
    | malformed header unparsable => exact (frames _ mem_cons_self).elim
    | frame header body readable announced fits =>
      have taken := read_frame fillBuf readable announced fits (itemStream items ++ rest)
      rw [item_stream_cons, append_assoc, Item.bytes, read_outcomes_some fillBuf taken, tail]
      rfl

theorem read_outcomes_empty : readOutcomes fillBuf [] = [] := by
  have nothing : readMessageOutcome fillBuf [] = (none, []) := by
    rw [readMessageOutcome, readHeader]
    rfl
  exact read_outcomes_none fillBuf nothing

/-- What is left of a block behind an unparsable value ends in its own error, unless it announces a
body. -/
theorem leftover_reported {lines : List (List Char)} (headerLines : ∀ line ∈ lines, HeaderLine line)
    (unusable : ∀ len, (lengths lines).getLast? = some (some len) → maxFrameSize < len)
    (rest : List UInt8) : ∃ problem ∈ readOutcomes fillBuf (linesBytes lines ++ 0x0D :: 0x0A :: rest),
      problem ≠ .error .invalidContentLength ∧ ∀ body, problem ≠ .ok body := by
  induction count : lines.length using Nat.strong_induction_on generalizing lines with
  | _ total ih =>
    by_cases readable : none ∉ lengths lines
    · have header := read_header_lines fillBuf headerLines readable none (0x0D :: 0x0A :: rest)
      rw [read_header_end] at header
      cases last : (lengths lines).getLast? with
      | none =>
        rw [last] at header
        rw [read_outcomes_some fillBuf header]
        exact ⟨_, mem_cons_self, by simp, by simp⟩
      | some length =>
        cases length with
        | none => exact absurd (mem_of_getLast? last) readable
        | some len =>
          rw [last, getD_some, readBody, if_pos (unusable len last)] at header
          rw [read_outcomes_some fillBuf header]
          exact ⟨_, mem_cons_self, by simp, by simp⟩
    · obtain ⟨early, bad, later, rfl, unread, outcome⟩ := read_header_unparsable fillBuf headerLines
        (not_not.mp readable) none (0x0D :: 0x0A :: rest)
      have field : lengths (bad :: later) = none :: lengths later := lengths_cons_some unread later
      have less : later.length < total := by
        rw [← count, length_append, length_cons]
        omega
      obtain ⟨problem, member, given⟩ := ih later.length less (fun line member => headerLines line
          (mem_append_right _ (mem_cons_of_mem _ member)))
        (fun len last => unusable len (by
          rw [lengths_append, field, getLast?_append, getLast?_cons, last]
          rfl)) rfl
      rw [read_outcomes_some fillBuf outcome]
      exact ⟨problem, mem_cons_of_mem _ member, given⟩

/-- After the first malformed block a stream is read otherwise, unless a later field of that block
announces a body. -/
theorem read_malformed_differs {early later : List Item} {header : Header}
    (unparsable : none ∈ lengths header.fields) (frames : ∀ item ∈ early, item.IsFrame)
    (unusable : ∀ len, (lengths header.fields).getLast? = some (some len) → maxFrameSize < len) :
    readOutcomes fillBuf (itemStream (early ++ .malformed header unparsable :: later)) ≠
      (early ++ .malformed header unparsable :: later).map Item.outcome := by
  have whole := header.all_lengths
  obtain ⟨front, bad, left, parts, unread, outcome⟩ := read_header_unparsable fillBuf
    header.all_lines (whole ▸ unparsable) none (0x0D :: 0x0A :: itemStream later)
  have fields : lengths header.fields = lengths front ++ none :: lengths left := by
    rw [← whole, parts, lengths_append, lengths_cons_some unread]
  obtain ⟨problem, member, other, noBody⟩ := leftover_reported fillBuf
    (fun line member => header.all_lines line (parts ▸ mem_append_right _ (mem_cons_of_mem _ member)))
    (fun len last => unusable len (by
      rw [fields, getLast?_append, getLast?_cons, last]
      rfl)) (itemStream later)
  have stream : itemStream (early ++ .malformed header unparsable :: later) = itemStream early ++
        (linesBytes (header.before ++ header.fields) ++ (0x0D :: 0x0A :: itemStream later)) := by
    rw [itemStream, flatMap_append, flatMap_cons, Item.bytes, Header.bytes, append_assoc (linesBytes _)]
    rfl
  intro same
  rw [stream, read_frames fillBuf frames, read_outcomes_some fillBuf outcome] at same
  have handed : problem ∈ (early ++ .malformed header unparsable :: later).map Item.outcome := by
    rw [← same]
    exact mem_append_right _ (mem_cons_of_mem _ member)
  obtain ⟨item, -, rfl⟩ := mem_map.mp handed
  cases item with
  | frame _ body _ _ _ => exact noBody body rfl
  | malformed _ _ => exact other rfl

end Stream

/-- Both readers give one outcome for each item on frames alone, and differ once a malformed block
comes that has no usable length at its end. -/
theorem readers_compared (fillBuf : List UInt8 → List UInt8) (items : List Item)
    (room : (itemStream items).length ≤ usizeMax) :
    (drainAll (push {} (itemStream items))).1 = items.map Item.outcome ∧
      ((∀ item ∈ items, item.IsFrame) →
        readOutcomes fillBuf (itemStream items) = items.map Item.outcome) ∧
      ∀ early header unparsable later, items = early ++ .malformed header unparsable :: later →
        (∀ item ∈ early, item.IsFrame) →
        readOutcomes fillBuf (itemStream items) = items.map Item.outcome →
        ∃ len ≤ maxFrameSize, (lengths header.fields).getLast? = some (some len) := by
  refine ⟨framer_outcomes items room, ?_, ?_⟩
  · intro frames
    have whole := read_frames fillBuf frames []
    rw [append_nil, read_outcomes_empty, append_nil] at whole
    exact whole
  · rintro early header unparsable later rfl frames same
    by_contra without
    refine read_malformed_differs fillBuf unparsable frames ?_ same
    intro len last
    by_contra usable
    exact without ⟨len, Nat.le_of_not_lt usable, last⟩

/-- `Content-Length: x`, which is no number. -/
def unreadable : Header where
  before := []
  first := contentLength ++ [':', ' ', 'x']
  later := []
  lines := by
    intro line member
    obtain rfl := mem_singleton.mp member
    exact ⟨by unfold Breakless; decide +kernel, by decide⟩
  others := fun line member => (not_mem_nil member).elim
  anchored := ⟨headerSentinel, [0x20, 0x78], by decide, rfl⟩

/-- `Content-Length: 2`. -/
def lengthTwo : Header where
  before := []
  first := contentLength ++ [':', ' ', '2']
  later := []
  lines := by
    intro line member
    obtain rfl := mem_singleton.mp member
    exact ⟨by unfold Breakless; decide +kernel, by decide⟩
  others := fun line member => (not_mem_nil member).elim
  anchored := ⟨headerSentinel, [0x20, 0x32], by decide, rfl⟩

theorem unreadable_lengths : lengths unreadable.fields = [none] := by decide

theorem length_two_announced : (lengths lengthTwo.fields).getLast? = some (some 2) := by
  rfl

theorem length_two_readable : none ∉ lengths lengthTwo.fields := by
  decide

def emptyObject : List UInt8 := [0x7B, 0x7D]

def blockThenFrame : List Item :=
  [.malformed unreadable (unreadable_lengths ▸ mem_cons_self),
    .frame lengthTwo emptyObject length_two_readable length_two_announced (by decide)]

theorem block_then_frame_compared :
    (drainAll (push {} (itemStream blockThenFrame))).1 = blockThenFrame.map Item.outcome ∧
      readOutcomes id (itemStream blockThenFrame) ≠ blockThenFrame.map Item.outcome := by
  obtain ⟨framed, -, differs⟩ := readers_compared id blockThenFrame (by decide)
  refine ⟨framed, fun same => ?_⟩
  obtain ⟨len, -, last⟩ := differs [] unreadable _ _ rfl (fun _ none => absurd none not_mem_nil)
    same
  rw [unreadable_lengths] at last
  cases last

theorem malformed_block_read_twice :
    readOutcomes id (itemStream blockThenFrame) =
        [.error .invalidContentLength, .error .missingContentLength, .ok emptyObject] ∧
      (drainAll (push {} (itemStream blockThenFrame))).1 =
        [.error .invalidContentLength, .ok emptyObject] := by
  constructor
  · have stream : itemStream blockThenFrame =
        encode unreadable.first ++ 0x0D :: 0x0A :: 0x0D :: 0x0A ::
          (lengthTwo.bytes ++ emptyObject ++ []) := by decide
    have unread : lengthField unreadable.first = some none := by decide
    have block := read_header_line id (unreadable.all_lines _ mem_cons_self) none
      (0x0D :: 0x0A :: (lengthTwo.bytes ++ emptyObject ++ []))
    rw [unread, ← stream, ← readMessageOutcome] at block
    have leftover : readMessageOutcome id (0x0D :: 0x0A :: (lengthTwo.bytes ++ emptyObject ++ [])) =
        (some (.error .missingContentLength), lengthTwo.bytes ++ emptyObject ++ []) :=
      read_header_end id none _
    have framed := @read_frame id lengthTwo emptyObject length_two_readable length_two_announced
      (by decide) []
    rw [read_outcomes_some id block, read_outcomes_some id leftover, read_outcomes_some id framed,
      read_outcomes_empty]
  · exact framer_outcomes blockThenFrame (by decide)

end PerlLsp.SequentialReader
