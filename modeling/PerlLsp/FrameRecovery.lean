import PerlLsp.Framing
import PerlLsp.Runs

/-! Desynchronised input of perl-lsp-rs-core/src/transport/framing.rs: bytes in front of a good
frame that the framer cannot read. Nothing but errors is handed out for them, and the frame behind
them is not cut, however the bytes are pushed. The invariant looks at what is left of the garbage,
then the whole frame. -/
namespace PerlLsp.FrameRecovery
open Text Utf8 Framing ContentLengthFramer List Except

/-- What a call of `try_next` hands out, `Ok(None)` apart. -/
abbrev Answer := Except FramingError (List UInt8)

def answered : Except FramingError (Option (List UInt8)) → Option Answer
  | .error problem => some (.error problem)
  | .ok none => none
  | .ok (some body) => some (.ok body)

inductive Call where
  | push (bytes : List UInt8)
  | tryNext

def Call.bytes : Call → List UInt8
  | push bytes => bytes
  | tryNext => []

def pushed (calls : List Call) : List UInt8 := calls.flatMap Call.bytes

def call (framer : ContentLengthFramer) : Call → List Answer × ContentLengthFramer
  | .push bytes => ([], framer.push bytes)
  | .tryNext => ((answered framer.tryNext.1).toList, framer.tryNext.2)

def serve (framer : ContentLengthFramer) : List Call → List Answer × ContentLengthFramer
  | [] => ([], framer)
  | next :: rest =>
    let first := call framer next
    let later := serve first.2 rest
    (first.1 ++ later.1, later.2)

variable {label hay : List UInt8}

theorem header_end_inside {headerEnd headerLen : Nat}
    (found : findHeaderEnd hay = some (headerEnd, headerLen)) :
    0 < headerLen ∧ headerEnd + headerLen ≤ hay.length ∧ hay[headerEnd + headerLen - 1]? = some 0x0A := by
  have crlf (index : Nat) (here : findSubslice hay headerEndCrlf = some index) :
      index + 4 ≤ hay.length ∧ hay[index + 3]? = some 0x0A := by
    obtain ⟨fits, hit⟩ := position_sound _ _ hay index here
    exact ⟨fits, window_get hay headerEndCrlf index 3 0x0A hit rfl⟩
  have lf (index : Nat) (here : findSubslice hay headerEndLf = some index) :
      index + 2 ≤ hay.length ∧ hay[index + 1]? = some 0x0A := by
    obtain ⟨fits, hit⟩ := position_sound _ _ hay index here
    exact ⟨fits, window_get hay headerEndLf index 1 0x0A hit rfl⟩
  have widths : headerEndCrlf.length = 4 ∧ headerEndLf.length = 2 := ⟨rfl, rfl⟩
  cases crlfFound : findSubslice hay headerEndCrlf with
  | none =>
    cases lfFound : findSubslice hay headerEndLf with
    | none => simp [findHeaderEnd, crlfFound, lfFound] at found
    | some lfAt =>
      rw [findHeaderEnd, crlfFound, lfFound] at found
      obtain ⟨rfl, rfl⟩ := Prod.mk.inj (Option.some.inj found)
      exact ⟨by decide, lf lfAt lfFound⟩
  | some crlfAt =>
    cases lfFound : findSubslice hay headerEndLf with
    | none =>
      rw [findHeaderEnd, crlfFound, lfFound] at found
      obtain ⟨rfl, rfl⟩ := Prod.mk.inj (Option.some.inj found)
      exact ⟨by decide, crlf crlfAt crlfFound⟩
    | some lfAt =>
      rw [findHeaderEnd, crlfFound, lfFound] at found
      have chosen := Option.some.inj found
      split at chosen
      · obtain ⟨rfl, rfl⟩ := Prod.mk.inj chosen
        exact ⟨by decide, crlf crlfAt crlfFound⟩
      · obtain ⟨rfl, rfl⟩ := Prod.mk.inj chosen
        exact ⟨by decide, lf lfAt lfFound⟩

section
variable {framer : ContentLengthFramer}
include framer

theorem consume_shrinks {headerEnd headerLen : Nat}
    (found : findHeaderEnd framer.buf = some (headerEnd, headerLen)) :
    (framer.consumeHeaderBlock headerEnd headerLen).buf.length < framer.buf.length := by
  obtain ⟨positive, inside, -⟩ := header_end_inside found
  have resynced := resync_shrinks ⟨framer.buf.drop (min (headerEnd + headerLen) framer.buf.length)⟩
  simp only [length_drop] at resynced
  rw [consumeHeaderBlock]
  omega

theorem unanchored_answer_shrinks (given : answered framer.tryUnanchored.1 ≠ none) :
    framer.tryUnanchored.2.buf.length < framer.buf.length := by
  cases found : findHeaderEnd framer.buf with
  | none =>
    rw [tryUnanchored, found] at given
    exact absurd rfl given
  | some block =>
    have shorter := consume_shrinks found
    rw [tryUnanchored, found]
    dsimp only
    split
    · exact shorter
    · split
      · exact shorter
      · exact shorter

theorem anchored_answer_shrinks (given : answered framer.tryAnchored.1 ≠ none) :
    framer.tryAnchored.2.buf.length < framer.buf.length := by
  cases found : findHeaderEnd framer.buf with
  | none =>
    rw [tryAnchored, found] at given ⊢
    dsimp only at given ⊢
    split
    · exact Nat.lt_of_le_of_lt (Nat.zero_le _) ‹_›
    · rw [if_neg ‹_›] at given
      exact absurd rfl given
  | some block =>
    have shorter := consume_shrinks found
    obtain ⟨positive, inside, -⟩ := header_end_inside found
    rw [tryAnchored, found] at given ⊢
    dsimp only at given ⊢
    cases header : decode (framer.buf.take block.1) with
    | none => exact shorter
    | some text =>
      rw [header] at given
      dsimp only at given ⊢
      cases parsed : parseContentLength text with
      | missing | invalid | malformedHeader => exact shorter
      | found len =>
        rw [parsed] at given
        dsimp only at given ⊢
        by_cases large : maxFrameSize < len
        · rw [if_pos large]
          exact shorter
        rw [if_neg large] at given ⊢
        by_cases overflow : usizeMax < block.1 + block.2
        · rw [if_pos overflow]
          exact shorter
        rw [if_neg overflow] at given ⊢
        by_cases wraps : usizeMax < block.1 + block.2 + len
        · rw [if_pos wraps]
          exact shorter
        rw [if_neg wraps] at given ⊢
        by_cases missing : framer.buf.length < block.1 + block.2 + len
        · rw [if_pos missing] at given
          exact absurd rfl given
        rw [if_neg missing]
        have resynced := resync_shrinks ⟨framer.buf.drop (block.1 + block.2 + len)⟩
        simp only [length_drop] at resynced
        dsimp only
        omega

theorem try_next_answer_shrinks (given : answered framer.tryNext.1 ≠ none) :
    framer.tryNext.2.buf.length < framer.buf.length := by
  have resynced := resync_shrinks framer
  rw [tryNext] at given ⊢
  cases start : findHeaderStart framer.resyncIfNeeded.buf with
  | none =>
    rw [start] at given
    exact Nat.lt_of_lt_of_le (unanchored_answer_shrinks given) resynced
  | some index =>
    rw [start] at given
    have shorter := anchored_answer_shrinks given
    simp only [length_drop] at shorter
    dsimp only
    omega

end

/-- Calling `try_next` until it returns `Ok(None)`, past every error. -/
def drainAll (framer : ContentLengthFramer) : List Answer × ContentLengthFramer :=
  match given : answered framer.tryNext.1 with
  | none => ([], framer.tryNext.2)
  | some answer =>
    have : framer.tryNext.2.buf.length < framer.buf.length :=
      try_next_answer_shrinks (by rw [given]; exact Option.some_ne_none answer)
    let later := drainAll framer.tryNext.2
    (answer :: later.1, later.2)
termination_by framer.buf.length

def handedOut (calls : List Call) : List Answer :=
  let served := serve {} calls
  served.1 ++ (drainAll served.2).1

def Recovers (body : List UInt8) (calls : List Call) : Prop :=
  ∃ problems : List FramingError, handedOut calls = problems.map error ++ [ok body]

def Sentinel (label : List UInt8) : Prop :=
  label.map toAsciiLowercase = headerSentinel.map toAsciiLowercase

def Anchored (bytes : List UInt8) : Prop := ∃ label rest, bytes = label ++ rest ∧ Sentinel label

def Breakless (bytes : List UInt8) : Prop := ∀ byte ∈ bytes, byte ≠ 0x0D ∧ byte ≠ 0x0A

section
variable (sentinel : Sentinel label)
include label sentinel

theorem Sentinel.length : label.length = 15 := by
  have sizes := congrArg List.length sentinel
  rw [length_map] at sizes
  exact sizes

theorem Sentinel.breakless : Breakless label := by
  intro byte member
  have lowered : toAsciiLowercase byte ∈ headerSentinel.map toAsciiLowercase :=
    sentinel ▸ mem_map_of_mem member
  constructor
  · rintro rfl
    exact absurd lowered (by decide)
  · rintro rfl
    exact absurd lowered (by decide)

/-- Inside a sentinel its first letter does not come again. -/
theorem Sentinel.first_once {index : Nat} (positive : 0 < index) : label[index]? ≠ some 0x43 := by
  intro again
  have lowered : (headerSentinel.map toAsciiLowercase)[index]? = some (toAsciiLowercase 0x43) := by
    rw [← sentinel, getElem?_map, again]
    rfl
  have inside := (List.getElem?_eq_some_iff.mp lowered).1
  have once : ∀ other < 15, 0 < other →
      (headerSentinel.map toAsciiLowercase)[other]? ≠ some (toAsciiLowercase 0x43) := by decide
  exact once index inside positive lowered

end

theorem frame_front (body : List UInt8) : ∃ rest, frame body = headerSentinel ++ rest := by
  obtain ⟨rest, label⟩ := header_sentinel_first body.length
  exact ⟨rest ++ (headerEndCrlf ++ body), by rw [frame_shape, label]; simp only [append_assoc]⟩

theorem frame_anchored (body : List UInt8) : Anchored (frame body) := by
  obtain ⟨rest, front⟩ := frame_front body
  exact ⟨headerSentinel, rest, front, rfl⟩

variable {bytes : List UInt8}

theorem Anchored.long (anchored : Anchored bytes) : 15 ≤ bytes.length := by
  obtain ⟨label, rest, rfl, sentinel⟩ := anchored
  rw [length_append, sentinel.length]
  exact Nat.le_add_right _ _

theorem Anchored.append (anchored : Anchored bytes) (more : List UInt8) : Anchored (bytes ++ more) := by
  obtain ⟨label, rest, rfl, sentinel⟩ := anchored
  exact ⟨label, rest ++ more, append_assoc _ _ _, sentinel⟩

theorem Anchored.front (anchored : Anchored (received ++ pending)) (long : 15 ≤ received.length) :
    Anchored received := by
  obtain ⟨label, rest, split, sentinel⟩ := anchored
  have width := sentinel.length
  obtain ⟨after, front⟩ := split_front label rest received pending split.symm (by omega)
  exact ⟨label, after, front.symm, sentinel⟩

theorem header_start_at {index : Nat} (found : findHeaderStart hay = some index) :
    index + 15 ≤ hay.length ∧ Anchored (hay.drop index) := by
  obtain ⟨fits, hit⟩ := position_sound _ _ hay index found
  refine ⟨fits, (hay.drop index).take 15, (hay.drop index).drop 15, ?_, eq_of_beq hit⟩
  exact (take_append_drop 15 _).symm

theorem header_start_met {before after : List UInt8} (anchored : Anchored after) :
    ∃ index, findHeaderStart (before ++ after) = some index ∧ index ≤ before.length := by
  obtain ⟨label, rest, rfl, sentinel⟩ := anchored
  have width : label.length = headerSentinel.length := sentinel.length
  refine position_met _ _ _ before.length (by decide) ?_ ?_
  · simp only [length_append]
    omega
  · rw [drop_left, ← width, take_left]
    exact beq_iff_eq.mpr sentinel

theorem header_start_zero (anchored : Anchored bytes) : findHeaderStart bytes = some 0 := by
  obtain ⟨index, found, first⟩ := @header_start_met [] bytes anchored
  exact Nat.le_zero.mp first ▸ found

/-- Once the fifteen bytes of a sentinel are there, it is found or an earlier one is. -/
theorem header_start_reached {before after : List UInt8}
    (split : received ++ pending = before ++ after) (anchored : Anchored after)
    (long : before.length + 15 ≤ received.length) :
    ∃ index, findHeaderStart received = some index ∧ index ≤ before.length := by
  obtain ⟨behind, rfl⟩ := split_front before after received pending split.symm (by omega)
  rw [append_assoc, append_cancel_left_eq] at split
  rw [length_append] at long
  exact header_start_met (Anchored.front (split ▸ anchored) (by omega))

/-- A sentinel does not reach from the garbage into the frame behind it. -/
theorem anchored_inside {before after : List UInt8}
    (split : garbage ++ frame body = before ++ after) (anchored : Anchored after)
    (inside : before.length < garbage.length) : ∃ rest, garbage = before ++ rest ∧ Anchored rest := by
  obtain ⟨rest, rfl⟩ := split_front before after garbage (frame body) split.symm (by omega)
  refine ⟨rest, rfl, ?_⟩
  rw [append_assoc, append_cancel_left_eq] at split
  by_cases long : 15 ≤ rest.length
  · exact Anchored.front (split ▸ anchored) long
  obtain ⟨label, tail, rfl, sentinel⟩ := anchored
  have positive : 0 < rest.length := by
    rw [length_append] at inside
    omega
  have width := sentinel.length
  have first : (label ++ tail)[rest.length]? = some 0x43 := by
    rw [← split, getElem?_append_right le_rfl, Nat.sub_self]
    rfl
  rw [getElem?_append_left (by omega)] at first
  exact absurd first (sentinel.first_once positive)

def Rejected (header : List UInt8) : Prop :=
  ∀ text len, decode header = some text → parseContentLength text = .found len → maxFrameSize < len

def Harmless (garbage : List UInt8) : Prop :=
  ∀ before after, garbage = before ++ after → Anchored after →
    ∃ header more, after = header ++ headerEndCrlf ++ more ∧ Breakless header ∧ Rejected header

/-- The bytes open with a rejected header block. A sentinel inside is looked at only once the block
outgrows the header limit. -/
def Headed (garbage : List UInt8) : Prop :=
  Anchored garbage ∧ ∃ header more, garbage = header ++ headerEndCrlf ++ more ∧
    Breakless header ∧ Rejected header ∧ Harmless more ∧
      ∀ cut, maxHeaderBytes < cut → Harmless (garbage.drop cut)

def Ahead (body received pending : List UInt8) : Prop :=
  ∃ garbage, received ++ pending = garbage ++ frame body ∧ (Harmless garbage ∨ Headed garbage)

theorem harmless_empty : Harmless [] := by
  intro before after split anchored
  obtain ⟨-, rfl⟩ := append_eq_nil_iff.mp split.symm
  exact absurd anchored.long (by decide)

theorem Harmless.drop (harmless : Harmless garbage) (cut : Nat) : Harmless (garbage.drop cut) := by
  intro before after split anchored
  apply harmless (garbage.take cut ++ before) after ?_ anchored
  rw [append_assoc, ← split, take_append_drop]

theorem Harmless.headed (harmless : Harmless garbage) (anchored : Anchored garbage) : Headed garbage := by
  obtain ⟨header, more, rfl, breakless, rejected⟩ := harmless [] garbage rfl anchored
  have behind := harmless.drop (header ++ headerEndCrlf).length
  rw [drop_left] at behind
  exact ⟨anchored, header, more, rfl, breakless, rejected, behind, fun cut _ => harmless.drop cut⟩

section
variable {body received pending garbage : List UInt8}
include body received pending garbage

theorem ahead_drop {cut : Nat}
    (split : received ++ pending = garbage ++ frame body) (harmless : Harmless (garbage.drop cut))
    (there : cut ≤ received.length) (within : cut ≤ garbage.length) :
    Ahead body (received.drop cut) pending := by
  refine ⟨garbage.drop cut, ?_, .inl harmless⟩
  rw [← drop_append_of_le_length there, split, drop_append_of_le_length within]

theorem unmet_length (split : received ++ pending = garbage ++ frame body)
    (unmet : findHeaderStart received = none) : received.length < garbage.length + 15 := by
  by_contra long
  obtain ⟨index, found, -⟩ :=
    header_start_reached split (frame_anchored body) (Nat.le_of_not_lt long)
  rw [unmet] at found
  cases found

theorem met_start {index : Nat} (split : received ++ pending = garbage ++ frame body)
    (met : findHeaderStart received = some index) :
    index ≤ garbage.length ∧ (index < garbage.length → Anchored (garbage.drop index)) := by
  obtain ⟨fits, anchored⟩ := header_start_at met
  have first : index ≤ garbage.length := by
    by_contra beyond
    obtain ⟨earlier, found, before⟩ :=
      header_start_reached split (frame_anchored body) (by omega)
    rw [met] at found
    obtain rfl := Option.some.inj found
    omega
  refine ⟨first, fun inside => ?_⟩
  have parts : garbage ++ frame body = received.take index ++ (received.drop index ++ pending) := by
    rw [← append_assoc, take_append_drop, split]
  have width : (received.take index).length = index := by
    rw [length_take]
    omega
  obtain ⟨rest, whole, opens⟩ :=
    anchored_inside parts (anchored.append pending) (by rw [width]; exact inside)
  have dropped : garbage.drop index = rest := by
    rw [whole]
    exact drop_left' width
  exact dropped ▸ opens

theorem Headed.unmet_short (headed : Headed garbage) (split : received ++ pending = garbage ++ frame body)
    (unmet : findHeaderStart received = none) : received.length < 15 := by
  by_contra long
  obtain ⟨index, found, -⟩ := @header_start_reached received pending [] _ split
    (headed.1.append (frame body)) (by simpa using long)
  rw [unmet] at found
  cases found

end

theorem resync_ahead (ahead : Ahead body received pending) :
    Ahead body (resyncIfNeeded ⟨received⟩).buf pending := by
  obtain ⟨garbage, split, left⟩ := ahead
  cases met : findHeaderStart received with
  | some index =>
    obtain ⟨within, opens⟩ := met_start split met
    obtain ⟨fits, -⟩ := header_start_at met
    have dropped : (resyncIfNeeded ⟨received⟩).buf = received.drop index := by
      simp only [resyncIfNeeded, met]
    rw [dropped]
    rcases left with harmless | headed
    · exact ahead_drop split (harmless.drop index) (by omega) within
    -- A headed rest opens with its sentinel, which is the first one found.
    have long : 15 ≤ received.length := by omega
    have anchored : Anchored received :=
      Anchored.front (split ▸ headed.1.append (frame body)) long
    rw [header_start_zero anchored] at met
    obtain rfl := Option.some.inj met
    exact ⟨garbage, split, .inr headed⟩
  | none =>
    have short := unmet_length split met
    by_cases large : maxDesyncBufferBytes < received.length
    · have limits : resyncTailBytes = 8192 ∧ maxDesyncBufferBytes = 65536 := ⟨rfl, rfl⟩
      have dropped : (resyncIfNeeded ⟨received⟩).buf =
          received.drop (received.length - resyncTailBytes) := by
        simp only [resyncIfNeeded, met, large, ↓reduceIte]
        rw [Nat.min_eq_left (by omega)]
      rw [dropped]
      rcases left with harmless | headed
      · exact ahead_drop split (harmless.drop _) (by omega) (by omega)
      · have small := headed.unmet_short split met
        omega
    · have kept : (resyncIfNeeded ⟨received⟩).buf = received := by
        simp only [resyncIfNeeded, met, large, ↓reduceIte]
      rw [kept]
      exact ⟨garbage, split, left⟩

theorem resync_start (framer : ContentLengthFramer) : findHeaderStart framer.resyncIfNeeded.buf = none ∨
      findHeaderStart framer.resyncIfNeeded.buf = some 0 := by
  rw [resyncIfNeeded]
  cases met : findHeaderStart framer.buf with
  | some index => exact .inr (header_start_zero (header_start_at met).2)
  | none =>
    dsimp only
    split
    · -- What is kept of the tail holds no sentinel either.
      left
      generalize framer.buf.length - min resyncTailBytes framer.buf.length = cut
      cases again : findHeaderStart (framer.buf.drop cut) with
      | none => rfl
      | some index =>
        have anchored := (header_start_at again).2
        rw [drop_drop] at anchored
        obtain ⟨first, found, -⟩ :=
          @header_start_met (framer.buf.take (cut + index)) _ anchored
        rw [take_append_drop, met] at found
        cases found
    · exact .inl met

/-- What a call of `try_next` may do with the frame still ahead. -/
def Progress (body pending : List UInt8) :
    Except FramingError (Option (List UInt8)) × ContentLengthFramer → Prop
  | (.error _, next) => Ahead body next.buf pending
  | (.ok none, next) => Ahead body next.buf pending ∧ pending ≠ []
  | (.ok (some taken), next) => taken = body ∧ next = {} ∧ pending = []

theorem pending_left {whole : List UInt8} (split : received ++ pending = whole)
    (short : received.length < whole.length) : pending ≠ [] := by
  rintro rfl
  rw [append_nil] at split
  rw [split] at short
  exact Nat.lt_irrefl _ short

theorem frame_long (body : List UInt8) : 15 ≤ (frame body).length := (frame_anchored body).long

theorem header_end_in_garbage {headerEnd headerLen : Nat}
    (split : received ++ pending = garbage ++ frame body) (unmet : findHeaderStart received = none)
    (found : findHeaderEnd received = some (headerEnd, headerLen)) :
    headerEnd + headerLen ≤ garbage.length := by
  obtain ⟨positive, inside, last⟩ := header_end_inside found
  have short := unmet_length split unmet
  by_contra beyond
  obtain ⟨rest, front⟩ := frame_front body
  have width : headerSentinel.length = 15 := rfl
  have whole : (received ++ pending)[headerEnd + headerLen - 1]? = some 0x0A := by
    rw [getElem?_append_left (by omega), last]
  have broken : headerSentinel[headerEnd + headerLen - 1 - garbage.length]? = some 0x0A := by
    rw [split, getElem?_append_right (by omega), front, getElem?_append_left (by omega)] at whole
    exact whole
  have own : Sentinel headerSentinel := rfl
  exact (own.breakless _ (mem_of_getElem? broken)).2 rfl

theorem Headed.unmet_end (headed : Headed garbage)
    (split : received ++ pending = garbage ++ frame body) (unmet : findHeaderStart received = none) :
    findHeaderEnd received = none := by
  have short := headed.unmet_short split unmet
  obtain ⟨label, rest, front, sentinel⟩ := headed.1
  cases found : findHeaderEnd received with
  | none => rfl
  | some block =>
    obtain ⟨positive, inside, last⟩ := header_end_inside found
    have width := sentinel.length
    have whole : (received ++ pending)[block.1 + block.2 - 1]? = some 0x0A := by
      rw [getElem?_append_left (by omega), last]
    rw [split, front, append_assoc, getElem?_append_left (by omega)] at whole
    exact absurd rfl (sentinel.breakless _ (mem_of_getElem? whole)).2

theorem unanchored_progress (ahead : Ahead body received pending)
    (unmet : findHeaderStart received = none) : Progress body pending (tryUnanchored ⟨received⟩) := by
  have kept := ahead
  obtain ⟨garbage, split, left⟩ := ahead
  have short := unmet_length split unmet
  have long := frame_long body
  cases found : findHeaderEnd received with
  | none =>
    have waits : pending ≠ [] := pending_left split (by rw [length_append]; omega)
    simp only [tryUnanchored, found]
    exact ⟨kept, waits⟩
  | some block =>
    obtain ⟨headerEnd, headerLen⟩ := block
    rcases left with harmless | headed
    · have inside := header_end_in_garbage split unmet found
      obtain ⟨-, there, -⟩ := header_end_inside found
      have consumed : Ahead body (consumeHeaderBlock ⟨received⟩ headerEnd headerLen).buf pending := by
        rw [consumeHeaderBlock, Nat.min_eq_left there]
        exact resync_ahead (ahead_drop split (harmless.drop _) there inside)
      simp only [tryUnanchored, found]
      cases header : decode (received.take headerEnd) with
      | none => exact consumed
      | some text =>
        dsimp only
        split
        · exact consumed
        · exact consumed
    · rw [headed.unmet_end split unmet] at found
      cases found

theorem frame_progress (bound : body.length ≤ maxFrameSize) (split : received ++ pending = frame body) :
    Progress body pending (tryAnchored ⟨received⟩) := by
  by_cases short : received.length < (frame body).length
  · have waiting := try_anchored_pending received pending body [] bound
      (by rw [append_nil]; exact split) short
    rw [waiting]
    exact ⟨⟨[], split, .inl harmless_empty⟩, pending_left split short⟩
  have sizes := congrArg List.length split
  rw [length_append] at sizes
  obtain rfl : pending = [] := eq_nil_of_length_eq_zero (by omega)
  obtain rfl : received = frame body := by rw [← split, append_nil]
  have taken := try_anchored_header body.length body bound
  rw [if_neg (Nat.lt_irrefl _), take_length, drop_length, ← frame_shape] at taken
  rw [taken]
  exact ⟨rfl, rfl, rfl⟩

/-- A rejected block in front is dropped with an error: as a whole once complete, or as far as it
has come once too long. -/
theorem headed_progress (headed : Headed garbage) (split : received ++ pending = garbage ++ frame body) :
    Progress body pending (tryAnchored ⟨received⟩) := by
  have block := headed
  obtain ⟨anchored, header, more, rfl, breakless, rejected, behind, cuts⟩ := headed
  have width : headerEndCrlf.length = 4 := rfl
  have sizes : (header ++ headerEndCrlf ++ more).length = header.length + 4 + more.length := by
    rw [length_append, length_append, width]
  have parts : received ++ pending = (header ++ headerEndCrlf) ++ (more ++ frame body) := by
    rw [split, append_assoc (header ++ headerEndCrlf)]
  by_cases complete : header.length + 4 ≤ received.length
  · obtain ⟨after, rfl⟩ := split_front (header ++ headerEndCrlf) (more ++ frame body) received pending
      parts.symm (by rw [length_append, width]; exact complete)
    have found := header_end_complete header after breakless
    have taken : (header ++ headerEndCrlf ++ after).take header.length = header := by
      rw [append_assoc, take_left]
    have dropped : (header ++ headerEndCrlf ++ after).drop (header.length + 4) = after := by
      rw [← width, ← length_append, drop_left]
    have rest : after ++ pending = more ++ frame body := by
      rw [append_assoc (header ++ headerEndCrlf)] at parts
      exact append_cancel_left parts
    have consumed : Ahead body (consumeHeaderBlock ⟨header ++ headerEndCrlf ++ after⟩
        header.length 4).buf pending := by
      rw [consumeHeaderBlock, Nat.min_eq_left complete, dropped]
      exact resync_ahead ⟨more, rest, .inl behind⟩
    simp only [tryAnchored, found, taken]
    cases decoded : decode header with
    | none => exact consumed
    | some text =>
      dsimp only
      cases parsed : parseContentLength text with
      | missing | invalid | malformedHeader => exact consumed
      | found len =>
        dsimp only
        rw [if_pos (rejected text len decoded parsed)]
        exact consumed
  · obtain ⟨missing, front⟩ := split_front received pending (header ++ headerEndCrlf)
      (more ++ frame body) parts (by rw [length_append, width]; omega)
    have unended := header_end_pending header received missing breakless front (by omega)
    have waits : pending ≠ [] := pending_left split (by rw [length_append, sizes]; omega)
    simp only [tryAnchored, unended]
    by_cases large : maxHeaderBytes < received.length
    · rw [if_pos large]
      have cut := ahead_drop split (cuts received.length large) le_rfl (by omega)
      rw [drop_length] at cut
      exact cut
    · rw [if_neg large]
      exact ⟨⟨_, split, .inr block⟩, waits⟩

theorem try_next_progress (bound : body.length ≤ maxFrameSize) (ahead : Ahead body received pending) :
    Progress body pending (tryNext ⟨received⟩) := by
  have resynced := resync_ahead ahead
  rw [tryNext]
  rcases resync_start ⟨received⟩ with unmet | met
  · rw [unmet]
    exact unanchored_progress resynced unmet
  rw [met]
  obtain ⟨garbage, split, left⟩ := resynced
  have headed : garbage = [] ∨ Headed garbage := by
    rcases left with harmless | headed
    · cases garbage with
      | nil => exact .inl rfl
      | cons byte rest =>
        have anchored := (met_start split met).2 (Nat.succ_pos _)
        exact .inr (harmless.headed anchored)
    · exact .inr headed
  rcases headed with rfl | headed
  · exact frame_progress bound split
  · exact headed_progress headed split

theorem call_push (bytes : List UInt8) (ahead : Ahead body received (bytes ++ pending)) :
    Ahead body (call ⟨received⟩ (.push bytes)).2.buf pending := by
  obtain ⟨garbage, split, left⟩ := ahead
  exact resync_ahead ⟨garbage, (append_assoc _ _ _).trans split, left⟩

theorem serve_empty (calls : List Call) (nothing : pushed calls = []) : serve {} calls = ([], {}) := by
  induction calls with
  | nil => rfl
  | cons next rest ih =>
    obtain ⟨none, later⟩ := append_eq_nil_iff.mp nothing
    have still : call {} next = ([], {}) := by
      cases next with
      | push bytes =>
        obtain rfl : bytes = [] := none
        rfl
      | tryNext => rfl
    rw [serve, still]
    rw [ih later]
    rfl

/-- Only errors so far with the frame still ahead, or the frame has been handed out last. -/
theorem serve_ahead (bound : body.length ≤ maxFrameSize) (calls : List Call) (received : List UInt8)
    (ahead : Ahead body received (pushed calls)) :
    ∃ problems : List FramingError, ((serve ⟨received⟩ calls).1 = problems.map error ∧
        Ahead body (serve ⟨received⟩ calls).2.buf []) ∨
      ((serve ⟨received⟩ calls).1 = problems.map error ++ [ok body] ∧ (serve ⟨received⟩ calls).2 = {}) := by
  induction calls generalizing received with
  | nil => exact ⟨[], .inl ⟨rfl, ahead⟩⟩
  | cons next rest ih =>
    cases next with
    | push bytes => exact ih _ (call_push bytes ahead)
    | tryNext =>
      have progress := try_next_progress bound ahead
      rw [serve, call]
      cases result : tryNext ⟨received⟩ with
      | mk given after =>
        rw [result] at progress
        cases given with
        | error problem =>
          obtain ⟨problems, later⟩ := ih after.buf progress
          refine ⟨problem :: problems, later.imp ?_ ?_⟩
          · exact fun stays => ⟨congrArg (error problem :: ·) stays.1, stays.2⟩
          · exact fun taken => ⟨congrArg (error problem :: ·) taken.1, taken.2⟩
        | ok extracted =>
          cases extracted with
          | none => exact ih after.buf progress.1
          | some taken =>
            obtain ⟨rfl, rfl, nothing⟩ := progress
            have settled := serve_empty rest nothing
            refine ⟨[], .inr ?_⟩
            dsimp only
            rw [settled]
            exact ⟨rfl, rfl⟩

variable {byte : UInt8} {len : Nat} {text : List Char} {framer : ContentLengthFramer}

theorem drain_all_none (given : answered framer.tryNext.1 = none) :
    drainAll framer = ([], framer.tryNext.2) := by
  rw [drainAll]
  split
  · rfl
  · rename_i answer other
    rw [given] at other
    cases other

theorem drain_all_some {answer : Answer} (given : answered framer.tryNext.1 = some answer) :
    (drainAll framer).1 = answer :: (drainAll framer.tryNext.2).1 := by
  rw [drainAll]
  split
  · rename_i other
    rw [given] at other
    cases other
  rename_i same other
  rw [given] at other
  obtain rfl := Option.some.inj other
  rfl

theorem drain_all_ahead (bound : body.length ≤ maxFrameSize) (framer : ContentLengthFramer)
    (ahead : Ahead body framer.buf []) :
    ∃ problems : List FramingError, (drainAll framer).1 = problems.map error ++ [ok body] := by
  induction framer using drainAll.induct with
  | case1 framer given =>
    have progress := try_next_progress bound ahead
    cases result : framer.tryNext with
    | mk extracted after =>
      rw [result] at progress given
      cases extracted with
      | error problem => cases given
      | ok extracted =>
        cases extracted with
        | none => exact absurd rfl progress.2
        | some taken => cases given
  | case2 framer answer given shorter ih =>
    have progress := try_next_progress bound ahead
    rw [drain_all_some given]
    cases result : framer.tryNext with
    | mk extracted after =>
      rw [result] at progress given ih
      cases extracted with
      | error problem =>
        obtain ⟨problems, later⟩ := ih progress
        obtain rfl : error problem = answer := Option.some.inj given
        exact ⟨problem :: problems, congrArg (error problem :: ·) later⟩
      | ok extracted =>
        cases extracted with
        | none => cases given
        | some taken =>
          obtain ⟨rfl, rfl, -⟩ := progress
          obtain rfl : ok taken = answer := Option.some.inj given
          exact ⟨[], congrArg (ok taken :: ·) (congrArg Prod.fst (drain_all_none rfl))⟩

theorem recovers_ahead (bound : body.length ≤ maxFrameSize) (calls : List Call)
    (ahead : Ahead body [] (pushed calls)) : Recovers body calls := by
  obtain ⟨problems, ⟨errors, still⟩ | ⟨taken, empty⟩⟩ := serve_ahead bound calls [] ahead
  · obtain ⟨more, drained⟩ := drain_all_ahead bound _ still
    refine ⟨problems ++ more, ?_⟩
    rw [handedOut, errors, drained, map_append, append_assoc]
  · refine ⟨problems, ?_⟩
    rw [handedOut, taken, empty, drain_all_none rfl, append_nil]

def lengthBlock (value : List UInt8) : List UInt8 :=
  encode (contentLength ++ [':', ' ']) ++ value ++ headerEndCrlf

def Unparsable (value : List UInt8) : Prop :=
  ∀ text, decode value = some text → parseUsize (trim text) = none

/-- A sentinel inside the value, past the header limit, reads the rest of the value as a length that
is accepted. -/
def HidesHeader (value : List UInt8) : Prop :=
  ∃ before label rest text len, value = before ++ label ++ rest ∧
    maxHeaderBytes < (encode (contentLength ++ [':', ' ']) ++ before).length ∧ Sentinel label ∧
      decode rest = some text ∧ parseUsize (trim text) = some len ∧ len ≤ maxFrameSize

theorem toAsciiLowercase_cases {lower : UInt8} (same : toAsciiLowercase byte = lower) :
    byte = lower ∨ byte = lower - 0x20 := by
  rw [toAsciiLowercase] at same
  split at same
  · exact .inr (by rw [← same, UInt8.add_sub_cancel])
  · exact .inl same

/-- A byte that stands for a letter or the hyphen of the field name is read as one. -/
theorem label_byte {scalar : Char} (member : scalar ∈ contentLength)
    (same : toAsciiLowercase byte = toAsciiLowercase (UInt8.ofNat scalar.toNat)) :
    byte.toNat ≤ 0x7F ∧ (Char.ofNat byte.toNat).toLower = scalar.toLower ∧
      isWhitespace (Char.ofNat byte.toNat) = false ∧ Char.ofNat byte.toNat ≠ ':' := by
  have every : contentLength.all (fun scalar =>
      [toAsciiLowercase (UInt8.ofNat scalar.toNat),
        toAsciiLowercase (UInt8.ofNat scalar.toNat) - 0x20].all fun byte =>
        toAsciiLowercase byte != toAsciiLowercase (UInt8.ofNat scalar.toNat) ||
          byte.toNat ≤ 0x7F && (Char.ofNat byte.toNat).toLower == scalar.toLower &&
            !isWhitespace (Char.ofNat byte.toNat) && Char.ofNat byte.toNat != ':') = true := by decide
  have both (byte : UInt8) := all_eq_true.mp (all_eq_true.mp every scalar member) byte
  simp only [Bool.or_eq_true, Bool.and_eq_true, decide_eq_true_eq, beq_iff_eq, Bool.not_eq_true',
    bne_iff_ne, ne_eq, and_assoc] at both
  refine (both byte ?_).resolve_left (not_not_intro same)
  rcases toAsciiLowercase_cases same with rfl | rfl
  · exact mem_cons_self
  · exact mem_cons_of_mem _ mem_cons_self

/-- The text of a sentinel is the field name in some case and a colon. -/
theorem name_read (target : List Char) (named : ∀ scalar ∈ target, scalar ∈ contentLength)
    (bytes : List UInt8) (same : bytes.map toAsciiLowercase =
      target.map fun scalar => toAsciiLowercase (UInt8.ofNat scalar.toNat)) :
    ∃ name, bytes = encode name ∧ name.map Char.toLower = target.map Char.toLower ∧
      ∀ scalar ∈ name, isWhitespace scalar = false ∧ scalar ≠ ':' := by
  induction target generalizing bytes with
  | nil =>
    obtain rfl := map_eq_nil_iff.mp same
    exact ⟨[], rfl, rfl, fun _ member => absurd member not_mem_nil⟩
  | cons scalar rest ih =>
    cases bytes with
    | nil => cases same
    | cons byte others =>
      obtain ⟨first, later⟩ := List.cons.inj same
      obtain ⟨name, spelled, lowered, plain⟩ :=
        ih (fun other member => named other (mem_cons_of_mem _ member)) others later
      obtain ⟨ascii, letter, dark, apart⟩ := label_byte (named scalar mem_cons_self) first
      refine ⟨Char.ofNat byte.toNat :: name, ?_, ?_, ?_⟩
      · rw [encode_cons, encode_value1 byte ascii, spelled]
        rfl
      · rw [map_cons, map_cons, letter, lowered]
      · intro other member
        rcases mem_cons.mp member with rfl | member
        · exact ⟨dark, apart⟩
        · exact plain other member

theorem Sentinel.read (sentinel : Sentinel label) :
    ∃ name, label = encode (name ++ [':']) ∧ eqIgnoreAsciiCase name contentLength = true ∧
      ∀ scalar ∈ name, isWhitespace scalar = false ∧ scalar ≠ ':' := by
  have width := sentinel.length
  have parts : label = label.take 14 ++ label.drop 14 := (take_append_drop 14 label).symm
  have front : (label.take 14).map toAsciiLowercase =
      contentLength.map fun scalar => toAsciiLowercase (UInt8.ofNat scalar.toNat) := by
    rw [map_take, sentinel]
    decide
  have last : (label.drop 14).map toAsciiLowercase = [0x3A] := by
    rw [map_drop, sentinel]
    decide
  obtain ⟨name, spelled, lowered, plain⟩ := name_read contentLength (fun _ member => member) _ front
  refine ⟨name, ?_, beq_iff_eq.mpr lowered, plain⟩
  obtain ⟨byte, single⟩ := length_eq_one_iff.mp (show (label.drop 14).length = 1 by rw [length_drop]; omega)
  rw [single] at last
  have colon : byte = 0x3A := by
    rcases toAsciiLowercase_cases (List.cons.inj last).1 with same | other
    · exact same
    · rw [other] at last
      exact absurd last (by decide)
  rw [parts, spelled, single, colon, encode_append]
  rfl

theorem breakless_text (breakless : Breakless (encode text)) : '\r' ∉ text ∧ '\n' ∉ text := by
  constructor
  · intro member
    exact (breakless 0x0D (mem_flatMap.mpr ⟨'\r', member, by decide⟩)).1 rfl
  · intro member
    exact (breakless 0x0A (mem_flatMap.mpr ⟨'\n', member, by decide⟩)).2 rfl

/-- What a one line header with the field name, in any case, says. -/
theorem parse_labelled {name : List Char} (named : eqIgnoreAsciiCase name contentLength = true)
    (plain : ∀ scalar ∈ name, isWhitespace scalar = false ∧ scalar ≠ ':')
    (breakless : '\r' ∉ text ∧ '\n' ∉ text) : parseContentLength (name ++ ':' :: text) =
      match parseUsize (trim text) with
      | some len => .found len
      | none => .invalid := by
  have absent (scalar : Char) (blank : isWhitespace scalar = true) (other : scalar ∉ text) :
      scalar ∉ name ++ ':' :: text := by
    intro member
    rcases mem_append.mp member with early | late
    · rw [(plain scalar early).1] at blank
      cases blank
    · rcases mem_cons.mp late with rfl | later
      · exact absurd blank (by decide)
      · exact other later
  have single := lines_single _ (absent '\n' (by decide) breakless.2) (by simp)
  have bare := trim_end_matches_absent '\r' _ (absent '\r' (by decide) breakless.1)
  have parts := split_once_first ':' name text fun colon => (plain ':' colon).2 rfl
  have title : trim name = name := trim_bare name fun scalar member => (plain scalar member).1
  rw [parseContentLength, single, parseHeaderLines]
  simp only [bare]
  rw [if_neg (by simp), parts]
  simp only [title, named, ↓reduceIte]
  cases parseUsize (trim text) with
  | none => rfl
  | some len => rfl

/-- A sentinel and what follows it are read as a length exactly when what follows is one. -/
theorem labelled_found {rest : List UInt8} (sentinel : Sentinel label) (breakless : Breakless rest) :
    (∃ text, decode (label ++ rest) = some text ∧ parseContentLength text = .found len) ↔
      ∃ text, decode rest = some text ∧ parseUsize (trim text) = some len := by
  obtain ⟨name, rfl, named, plain⟩ := sentinel.read
  have said (text : List Char) (spelled : encode text = rest) :
      parseContentLength (name ++ ':' :: text) = .found len ↔ parseUsize (trim text) = some len := by
    rw [parse_labelled named plain (breakless_text (spelled ▸ breakless))]
    cases parseUsize (trim text) with
    | none => simp
    | some other => simp
  constructor
  · rintro ⟨text, decoded, parsed⟩
    obtain ⟨back, rfl, spelled⟩ := encoded_prefix _ _ _ ((decode_eq_some _ _).mp decoded)
    rw [append_assoc] at parsed
    exact ⟨back, (decode_eq_some _ _).mpr spelled, (said back spelled).mp parsed⟩
  · rintro ⟨text, decoded, parsed⟩
    have spelled := (decode_eq_some _ _).mp decoded
    refine ⟨name ++ ':' :: text, (decode_eq_some _ _).mpr ?_, (said text spelled).mpr parsed⟩
    rw [← spelled, ← encode_append, append_assoc]
    rfl

/-- A sentinel in front of the terminator lies in the header line. -/
theorem anchored_in_line {header before after : List UInt8}
    (split : header ++ headerEndCrlf = before ++ after) (anchored : Anchored after) :
    ∃ label rest, header = before ++ label ++ rest ∧ after = label ++ rest ++ headerEndCrlf ∧
      Sentinel label := by
  obtain ⟨label, tail, rfl, sentinel⟩ := anchored
  have width := sentinel.length
  have sizes := congrArg List.length split
  have four : headerEndCrlf.length = 4 := rfl
  simp only [length_append, width, four] at sizes
  have within : before.length + 15 ≤ header.length := by
    by_contra beyond
    -- The last byte of the label would be one of the terminator's.
    have last : label.length - 1 < label.length := by omega
    have there : (header ++ headerEndCrlf)[before.length + 14]? = some label[label.length - 1] := by
      rw [split, getElem?_append_right (by omega), getElem?_append_left (by omega),
        List.getElem?_eq_some_iff]
      exact ⟨by omega, by congr 1; omega⟩
    rw [getElem?_append_right (by omega)] at there
    have ends := mem_of_getElem? there
    have whole := sentinel.breakless _ (getElem_mem last)
    have breaks : ∀ byte ∈ headerEndCrlf, byte = 0x0D ∨ byte = 0x0A := by decide +kernel
    rcases breaks _ ends with cr | lf
    · exact whole.1 cr
    · exact whole.2 lf
  obtain ⟨rest, front⟩ := split_front (before ++ label) tail header headerEndCrlf
    (by rw [split, append_assoc]) (by rw [length_append, width]; exact within)
  refine ⟨label, rest, front.symm, ?_, sentinel⟩
  rw [← front, append_assoc, append_assoc] at split
  have behind := append_cancel_left (append_cancel_left split)
  rw [append_assoc, behind]

theorem label_front : encode (contentLength ++ [':', ' ']) = headerSentinel ++ [0x20] := by decide

theorem label_breakless : Breakless (encode (contentLength ++ [':', ' '])) := by
  have every : ∀ byte ∈ encode (contentLength ++ [':', ' ']), byte ≠ 0x0D ∧ byte ≠ 0x0A := by decide +kernel
  exact every

theorem headed_block {value : List UInt8} (breakless : Breakless value)
    (unparsable : Unparsable value) (hidden : ¬ HidesHeader value) : Headed (lengthBlock value) := by
  have whole : Breakless (encode (contentLength ++ [':', ' ']) ++ value) := by
    intro byte member
    rcases mem_append.mp member with label | inside
    · exact label_breakless byte label
    · exact breakless byte inside
  have spaced : Breakless (0x20 :: value) := by
    intro byte member
    rcases mem_cons.mp member with rfl | inside
    · decide
    · exact breakless byte inside
  have opening : encode (contentLength ++ [':', ' ']) ++ value = headerSentinel ++ 0x20 :: value := by
    rw [label_front, append_assoc]
    rfl
  have first : Sentinel headerSentinel := rfl
  refine ⟨⟨headerSentinel, 0x20 :: value ++ headerEndCrlf, ?_, first⟩, _, [],
    (append_nil _).symm, whole, ?_, harmless_empty, ?_⟩
  · rw [lengthBlock, opening, append_assoc]
  · intro text len decoded parsed
    rw [opening] at decoded
    obtain ⟨spelled, read, found⟩ := (labelled_found first spaced).mp ⟨text, decoded, parsed⟩
    have bytes := (decode_eq_some _ _).mp read
    obtain ⟨back, rfl, behind⟩ := encoded_prefix [' '] spelled value bytes
    have space : trim ([' '] ++ back) = trim back := trim_space back
    rw [space, unparsable back ((decode_eq_some _ _).mpr behind)] at found
    cases found
  · intro cut beyond before after split anchored
    have long := congrArg List.length split
    rw [length_append, length_drop] at long
    have parts : encode (contentLength ++ [':', ' ']) ++ value ++ headerEndCrlf =
        (lengthBlock value).take cut ++ before ++ after := by
      rw [append_assoc ((lengthBlock value).take cut), ← split, take_append_drop, lengthBlock]
    have deep : maxHeaderBytes < ((lengthBlock value).take cut ++ before).length := by
      have some := anchored.long
      rw [length_append, length_take]
      omega
    obtain ⟨label, rest, line, rfl, sentinel⟩ := anchored_in_line parts anchored
    have inside : Breakless rest := fun byte member =>
      whole byte (line ▸ mem_append_right _ member)
    refine ⟨label ++ rest, [], (append_nil _).symm, ?_, ?_⟩
    · intro byte member
      rw [line, append_assoc] at whole
      exact whole byte (mem_append_right _ member)
    · intro text len decoded parsed
      obtain ⟨said, read, found⟩ := (labelled_found sentinel inside).mp ⟨text, decoded, parsed⟩
      by_contra small
      have sixteen : (encode (contentLength ++ [':', ' '])).length = 16 := by decide
      have limit : maxHeaderBytes = 4096 := rfl
      rw [append_assoc ((lengthBlock value).take cut ++ before)] at line
      obtain ⟨ahead, front⟩ := split_front _ _ _ _ line (by omega)
      refine hidden ⟨ahead, label, rest, said, len, ?_, front ▸ deep, sentinel, read, found,
        Nat.le_of_not_lt small⟩
      rw [← front, append_assoc] at line
      rw [append_cancel_left line, append_assoc]

/-- The chunks end where the hidden sentinel starts, and the framer is asked in between. -/
def cutCalls (front behind body : List UInt8) : List Call :=
  [.push front, .tryNext, .push (behind ++ frame body)]

theorem resync_anchored (anchored : Anchored bytes) : resyncIfNeeded ⟨bytes⟩ = ⟨bytes⟩ := by
  simp only [resyncIfNeeded, header_start_zero anchored, drop_zero]

theorem try_next_anchored (anchored : Anchored bytes) : tryNext ⟨bytes⟩ = tryAnchored ⟨bytes⟩ := by
  rw [tryNext, resync_anchored anchored]
  simp only [header_start_zero anchored, drop_zero]

/-- Once the header line alone is past the limit, all of it is dropped. -/
theorem long_line_cleared {line : List UInt8} (anchored : Anchored line)
    (breakless : Breakless line) (long : maxHeaderBytes < line.length) :
    tryNext ⟨line⟩ = (.error .invalidHeader, {}) := by
  have unended := header_end_pending line line headerEndCrlf breakless rfl (by omega)
  rw [try_next_anchored anchored]
  simp only [tryAnchored, unended]
  rw [if_pos long]

/-- An accepted header takes its length out of whatever follows. -/
theorem accepted_header_takes {line after : List UInt8} {header : List Char}
    (anchored : Anchored line) (breakless : Breakless line) (decoded : decode line = some header)
    (parsed : parseContentLength header = .found len) (small : len ≤ maxFrameSize)
    (fits : line.length < 2 ^ 63) : answered (tryNext ⟨line ++ headerEndCrlf ++ after⟩).1 = none ∨
      answered (tryNext ⟨line ++ headerEndCrlf ++ after⟩).1 = some (.ok (after.take len)) := by
  have found := header_end_complete line after breakless
  have most : usizeMax = 18446744073709551615 ∧ maxFrameSize = 16777216 := ⟨rfl, rfl⟩
  have four : headerEndCrlf.length = 4 := rfl
  have taken : (line ++ headerEndCrlf ++ after).take line.length = line := by
    rw [append_assoc, take_left]
  have dropped : (line ++ headerEndCrlf ++ after).drop (line.length + 4) = after := by
    rw [← four, ← length_append, drop_left]
  rw [try_next_anchored ((anchored.append headerEndCrlf).append after)]
  simp only [tryAnchored, found, taken, decoded, parsed, dropped]
  rw [if_neg (by omega), if_neg (by omega), if_neg (by omega)]
  split
  · exact .inl rfl
  · exact .inr rfl

theorem served_cut {front behind : List UInt8} (opened : Anchored front)
    (breakless : Breakless front) (deep : maxHeaderBytes < front.length) (anchored : Anchored behind) :
    serve {} (cutCalls front behind body) = ([error .invalidHeader], ⟨behind ++ frame body⟩) := by
  have first : push {} front = ⟨front⟩ := resync_anchored opened
  have last : push {} (behind ++ frame body) = ⟨behind ++ frame body⟩ :=
    resync_anchored (anchored.append (frame body))
  simp only [cutCalls, serve, call, first, long_line_cleared opened breakless deep, last]
  rfl

/-- The frame is lost behind such a block: what is left of the block is a header of its own, and
takes its length out of the frame. -/
theorem hidden_header_swallows {before rest : List UInt8}
    (breakless : Breakless (before ++ label ++ rest)) (fits : (before ++ label ++ rest).length < 2 ^ 63)
    (deep : maxHeaderBytes < (encode (contentLength ++ [':', ' ']) ++ before).length)
    (sentinel : Sentinel label) (decoded : decode rest = some text)
    (parsed : parseUsize (trim text) = some len) (small : len ≤ maxFrameSize)
    (other : ∀ count, (frame body).take count ≠ body) :
    ¬ Recovers body (cutCalls (encode (contentLength ++ [':', ' ']) ++ before)
      (label ++ rest ++ headerEndCrlf) body) := by
  have opened : Anchored (encode (contentLength ++ [':', ' ']) ++ before) :=
    ⟨headerSentinel, [0x20] ++ before, by rw [label_front, append_assoc], rfl⟩
  have front : Breakless (encode (contentLength ++ [':', ' ']) ++ before) := by
    intro byte member
    rcases mem_append.mp member with early | late
    · exact label_breakless byte early
    · exact breakless byte (mem_append_left _ (mem_append_left _ late))
  have behind : Breakless rest := fun byte member => breakless byte (mem_append_right _ member)
  have line : Breakless (label ++ rest) := by
    intro byte member
    rw [append_assoc] at breakless
    exact breakless byte (mem_append_right _ member)
  have anchored : Anchored (label ++ rest) := ⟨label, rest, rfl, sentinel⟩
  obtain ⟨header, read, found⟩ := (labelled_found sentinel behind).mpr ⟨text, decoded, parsed⟩
  have short : (label ++ rest).length < 2 ^ 63 := by
    simp only [length_append] at fits ⊢
    omega
  rintro ⟨problems, handed⟩
  rw [handedOut, served_cut opened front deep (anchored.append headerEndCrlf)] at handed
  have only (taken : List UInt8) (given : ok taken ∈ problems.map error ++ [(ok body : Answer)]) :
      taken = body := by
    simpa using given
  rcases accepted_header_takes anchored line read found small short with given | given
  · have empty := congrArg Prod.fst (drain_all_none given)
    dsimp only at handed empty
    rw [empty] at handed
    have last : (ok body : Answer) ∈ [error FramingError.invalidHeader] ++ [] := by
      rw [handed]
      exact mem_append_right _ mem_cons_self
    cases mem_singleton.mp last
  · have first := drain_all_some given
    dsimp only at handed
    rw [first] at handed
    exact other len (only _ (handed ▸ mem_append_right _ mem_cons_self))

-- Four thousand bytes of rubbish and a length of five behind them.
def hiddenValue : List UInt8 := List.replicate 4096 0x78 ++ headerSentinel ++ [0x35]

theorem hidden_value_breakless : Breakless hiddenValue := by
  have rubbish : ∀ byte ∈ List.replicate 4096 (0x78 : UInt8), byte ≠ 0x0D ∧ byte ≠ 0x0A := by
    intro byte member
    rw [eq_of_mem_replicate member]
    decide
  have field : ∀ byte ∈ headerSentinel ++ [0x35], byte ≠ 0x0D ∧ byte ≠ 0x0A := by decide +kernel
  intro byte member
  rw [hiddenValue, append_assoc] at member
  rcases mem_append.mp member with early | late
  · exact rubbish byte early
  · exact field byte late

theorem hidden_value_unparsable : Unparsable hiddenValue := by
  intro text decoded
  have spelled := (decode_eq_some _ _).mp decoded
  have first : text.head? = some 'x' := by
    rw [← encode_head text 'x' (by decide), spelled]
    rfl
  cases text with
  | nil => cases first
  | cons scalar rest =>
    obtain rfl := Option.some.inj first
    have start : trimStart ('x' :: rest) = 'x' :: rest := by
      simp [trimStart, show isWhitespace 'x' = false by decide]
    have front : trimEnd ('x' :: rest) <+: 'x' :: rest := rdropWhile_prefix isWhitespace _
    rw [trim, start]
    cases trimmed : trimEnd ('x' :: rest) with
    | nil => rfl
    | cons other more =>
      rw [trimmed] at front
      obtain ⟨rfl, -⟩ := cons_prefix_cons.mp front
      rfl

theorem frame_front_differs (differs : byte ≠ 0x43) (rest : List UInt8) (count : Nat) :
    (frame (byte :: rest)).take count ≠ byte :: rest := by
  intro same
  cases count with
  | zero => cases same
  | succ count =>
    exact differs (List.cons.inj same).1.symm

def SentinelFree (garbage : List UInt8) : Prop := ∀ label, label <:+: garbage → ¬ Sentinel label

theorem SentinelFree.harmless (free : SentinelFree garbage) : Harmless garbage := by
  rintro before after rfl ⟨label, rest, rfl, sentinel⟩
  have inside : label <:+: before ++ (label ++ rest) := ⟨before, rest, append_assoc _ _ _⟩
  exact absurd sentinel (free label inside)

/-- Whatever the order of pushes and calls, the frame behind bytes without a sentinel comes out
whole behind nothing but errors, and so does the frame behind a header block with an unparsable
length that hides no later header. -/
theorem garbage_recovered (body : List UInt8) (bound : body.length ≤ maxFrameSize)
    (calls : List Call) :
    (∀ garbage, SentinelFree garbage → pushed calls = garbage ++ frame body → Recovers body calls) ∧
    (∀ value, Breakless value → Unparsable value → ¬ HidesHeader value →
      pushed calls = lengthBlock value ++ frame body → Recovers body calls) := by
  constructor
  · intro garbage free split
    exact recovers_ahead bound calls ⟨garbage, split, .inl free.harmless⟩
  · intro value breakless unparsable hidden split
    exact recovers_ahead bound calls
      ⟨lengthBlock value, split, .inr (headed_block breakless unparsable hidden)⟩

-- The garbage ends in a terminator, the sentinel of the frame is cut.
theorem garbage_recovered_cut : Recovers [0x7B, 0x7D]
    [.push ([0x61, 0x0A, 0x0A] ++ (frame [0x7B, 0x7D]).take 7), .tryNext,
      .push ((frame [0x7B, 0x7D]).drop 7)] := by
  apply (garbage_recovered [0x7B, 0x7D] (by decide) _).1 [0x61, 0x0A, 0x0A]
  · rintro label inside sentinel
    have short := inside.length_le
    rw [sentinel.length] at short
    exact absurd short (by decide)
  · decide

/-- Behind an unparsable value that hides a header past the limit the frame is lost. -/
theorem hidden_length_swallows_frame :
    Breakless hiddenValue ∧ Unparsable hiddenValue ∧
      ∃ calls, pushed calls = lengthBlock hiddenValue ++ frame [0x7B, 0x7D] ∧
        ¬ Recovers [0x7B, 0x7D] calls := by
  refine ⟨hidden_value_breakless, hidden_value_unparsable,
    cutCalls (encode (contentLength ++ [':', ' ']) ++ List.replicate 4096 0x78)
      (headerSentinel ++ [0x35] ++ headerEndCrlf) [0x7B, 0x7D], ?_, ?_⟩
  · simp only [pushed, cutCalls, flatMap_cons, flatMap_nil, Call.bytes, lengthBlock,
      hiddenValue, append_assoc, nil_append, append_nil]
  · have deep : maxHeaderBytes <
        (encode (contentLength ++ [':', ' ']) ++ List.replicate 4096 0x78).length := by
      rw [length_append, length_replicate, label_front]
      decide
    have sized : hiddenValue.length < 2 ^ 63 := by
      rw [hiddenValue, length_append, length_append, length_replicate]
      decide
    have read : decode [0x35] = some ['5'] := by decide
    have parsed : parseUsize (trim ['5']) = some 5 := by decide
    exact hidden_header_swallows hidden_value_breakless sized deep rfl read parsed (by decide)
      (frame_front_differs (by decide) [0x7D])

/-- The buffer of a framer that asks for more: no sentinel, an open header, or an accepted one
waiting for its body. -/
def Retained (framer : ContentLengthFramer) : Prop :=
  match findHeaderStart framer.buf with
  | none => framer.buf.length ≤ maxDesyncBufferBytes
  | some start => start = 0 ∧
      match findHeaderEnd framer.buf with
      | none => framer.buf.length ≤ maxHeaderBytes
      | some (headerEnd, headerLen) =>
        headerEnd + headerLen ≤ framer.buf.length ∧
          framer.buf.length < maxFrameSize + (headerEnd + headerLen)

theorem retained_empty : Retained {} := Nat.zero_le _

section

include framer

theorem unanchored_retained
    (unmet : findHeaderStart framer.buf = none) (small : framer.buf.length ≤ maxDesyncBufferBytes)
    (asks : answered framer.tryUnanchored.1 = none) : Retained framer.tryUnanchored.2 := by
  rw [tryUnanchored] at asks ⊢
  cases found : findHeaderEnd framer.buf with
  | none =>
    rw [Retained, unmet]
    exact small
  | some block =>
    rw [found] at asks
    dsimp only at asks
    split at asks
    · cases asks
    · split at asks
      · cases asks
      · cases asks

theorem anchored_retained
    (met : findHeaderStart framer.buf = some 0) (asks : answered framer.tryAnchored.1 = none) :
    Retained framer.tryAnchored.2 := by
  rw [tryAnchored] at asks ⊢
  cases found : findHeaderEnd framer.buf with
  | none =>
    rw [found] at asks
    dsimp only at asks ⊢
    by_cases long : maxHeaderBytes < framer.buf.length
    · rw [if_pos long] at asks
      cases asks
    rw [if_neg long, Retained, met]
    dsimp only
    rw [found]
    exact ⟨rfl, Nat.le_of_not_lt long⟩
  | some block =>
    obtain ⟨-, inside, -⟩ := header_end_inside found
    rw [found] at asks
    dsimp only at asks ⊢
    cases header : decode (framer.buf.take block.1) with
    | none =>
      rw [header] at asks
      cases asks
    | some text =>
      rw [header] at asks
      dsimp only at asks ⊢
      cases parsed : parseContentLength text with
      | missing | invalid | malformedHeader =>
        rw [parsed] at asks
        cases asks
      | found len =>
        rw [parsed] at asks
        dsimp only at asks ⊢
        by_cases large : maxFrameSize < len
        · rw [if_pos large] at asks
          cases asks
        rw [if_neg large] at asks ⊢
        by_cases overflow : usizeMax < block.1 + block.2
        · rw [if_pos overflow] at asks
          cases asks
        rw [if_neg overflow] at asks ⊢
        by_cases wraps : usizeMax < block.1 + block.2 + len
        · rw [if_pos wraps] at asks
          cases asks
        rw [if_neg wraps] at asks ⊢
        by_cases missing : framer.buf.length < block.1 + block.2 + len
        · -- The body is not there yet, and it is no longer than a frame may be.
          rw [if_pos missing, Retained, met]
          dsimp only
          rw [found]
          exact ⟨rfl, inside, by omega⟩
        · rw [if_neg missing] at asks
          cases asks

theorem resync_small (unmet : findHeaderStart framer.resyncIfNeeded.buf = none) :
    framer.resyncIfNeeded.buf.length ≤ maxDesyncBufferBytes := by
  rw [resyncIfNeeded] at unmet ⊢
  cases met : findHeaderStart framer.buf with
  | some index =>
    rw [met] at unmet
    rw [header_start_zero (header_start_at met).2] at unmet
    cases unmet
  | none =>
    dsimp only
    split
    · rw [length_drop]
      have kept : resyncTailBytes ≤ maxDesyncBufferBytes := by decide
      omega
    · exact Nat.le_of_not_lt ‹_›

/-- Only a framer with a bounded buffer asks for more. -/
theorem try_next_retained (asks : answered framer.tryNext.1 = none) : Retained framer.tryNext.2 := by
  rw [tryNext] at asks ⊢
  rcases resync_start framer with unmet | met
  · rw [unmet] at asks
    rw [unmet]
    exact unanchored_retained unmet (resync_small unmet) asks
  · rw [met] at asks
    rw [met]
    exact anchored_retained met asks

theorem drain_all_rest {answer : Answer} (given : answered framer.tryNext.1 = some answer) :
    (drainAll framer).2 = (drainAll framer.tryNext.2).2 := by
  rw [drainAll]
  split
  · rename_i other
    rw [given] at other
    cases other
  · rfl

end

theorem drain_all_retained (framer : ContentLengthFramer) :
    Retained (drainAll framer).2 ∧ (drainAll framer).1.length ≤ framer.buf.length := by
  induction framer using drainAll.induct with
  | case1 framer asks =>
    rw [drain_all_none asks]
    exact ⟨try_next_retained asks, Nat.zero_le _⟩
  | case2 framer answer given shorter ih =>
    rw [drain_all_some given, drain_all_rest given]
    refine ⟨ih.1, ?_⟩
    rw [length_cons]
    omega

def readChunk (framer : ContentLengthFramer) (chunk : List UInt8) : ContentLengthFramer :=
  (drainAll (framer.push chunk)).2

theorem buffer_bounded :
    (∀ framer : ContentLengthFramer, answered framer.tryNext.1 ≠ none →
      framer.tryNext.2.buf.length < framer.buf.length) ∧
    (∀ framer : ContentLengthFramer, (drainAll framer).1.length ≤ framer.buf.length) ∧
    ∀ chunks : List (List UInt8), Runs.Along readChunk Retained {} chunks :=
  ⟨fun _ => try_next_answer_shrinks, fun framer => (drain_all_retained framer).2, fun chunks =>
    Runs.along_of_invariant readChunk Retained
      (fun framer chunk _ => (drain_all_retained (framer.push chunk)).1) {} chunks retained_empty⟩

end PerlLsp.FrameRecovery
