import Mathlib.Data.List.Infix
import Mathlib.Data.List.TakeWhile

/-! The collection of heredoc bodies (`collect_at_declaration_offsets` in
syntax/heredoc.rs), with a probe that never interrupts, against the physical lines of
the source. A line ends in LF, CR LF, CR or at the end of the input. -/
namespace PerlLsp.HeredocCollector
open List Option Nat

def lineFeed : UInt8 := 0x0A

def carriageReturn : UInt8 := 0x0D

def isLineBreak (byte : UInt8) : Bool := byte == lineFeed || byte == carriageReturn

def isBlank (byte : UInt8) : Bool := byte == 0x20 || byte == 0x09

structure PendingHeredoc where
  label : List UInt8
  allowIndent : Bool
  bodyStart : Nat

structure ByteSpan where
  start : Nat
  stop : Nat
  deriving DecidableEq

structure HeredocContent where
  segments : List ByteSpan
  fullSpan : ByteSpan
  terminated : Bool
  deriving DecidableEq

structure CollectionResult where
  contents : List HeredocContent
  terminatorsFound : List Bool
  nextOffset : Nat
  deriving DecidableEq

def slice (src : List UInt8) (start stop : Nat) : List UInt8 := (src.drop start).take (stop - start)

def nextLineBounds (src : List UInt8) (off : Nat) : Nat × Nat × Nat :=
  let endNoEol := off + ((src.drop off).takeWhile fun byte => !isLineBreak byte).length
  let next :=
    match src.drop endNoEol with
    | [] => endNoEol
    | byte :: rest =>
      if byte = carriageReturn then
        if rest.head? = some lineFeed then endNoEol + 2 else endNoEol + 1
      else if byte = lineFeed then endNoEol + 1
      else endNoEol
  (off, endNoEol, next)

def splitLeadingWs (line : List UInt8) : Nat × List UInt8 :=
  let leading := line.takeWhile isBlank
  (leading.length, line.drop leading.length)

def stripTrailingCr (line : List UInt8) : List UInt8 :=
  if line.getLast? = some carriageReturn then line.dropLast else line

def commonPrefixLen : List UInt8 → List UInt8 → Nat
  | left :: lefts, right :: rights => if left = right then commonPrefixLen lefts rights + 1 else 0
  | _, _ => 0

/-- The loop of `collect_one_probed`: the raw lines, the terminator's indent and the offset behind
it, and where the loop stopped. -/
def collectLoop (src : List UInt8) (hd : PendingHeredoc) :
    Nat → Nat → List ByteSpan → List ByteSpan × Option (List UInt8 × Nat) × Nat
  | 0, off, rawLines => (rawLines, none, off)
  | fuel + 1, off, rawLines =>
    if src.length ≤ off then (rawLines, none, off)
    else
      let (start, stop, next) := nextLineBounds src off
      let line := slice src start stop
      let (leadWs, rest) := splitLeadingWs line
      if stripTrailingCr rest = hd.label then
        (rawLines, some (if hd.allowIndent then line.take leadWs else [], next), off)
      else collectLoop src hd fuel next (rawLines ++ [⟨start, stop⟩])

def stripIndent (src baselineIndent : List UInt8) (line : ByteSpan) : ByteSpan :=
  if baselineIndent = [] then line
  else ⟨line.start + commonPrefixLen (slice src line.start line.stop) baselineIndent, line.stop⟩

def collectOne (src : List UInt8) (off : Nat) (hd : PendingHeredoc) : HeredocContent × Nat × Bool :=
  let (rawLines, terminator, stopped) := collectLoop src hd src.length off []
  let baselineIndent := (terminator.map Prod.fst).getD []
  let segments := rawLines.map (stripIndent src baselineIndent)
  let fullSpan : ByteSpan :=
    match segments.head?, segments.getLast? with
    | some first, some last => ⟨first.start, last.stop⟩
    | _, _ => ⟨stopped, stopped⟩
  match terminator with
  | none => (⟨segments, fullSpan, false⟩, stopped, false)
  | some (_, afterTerminatorOff) => (⟨segments, fullSpan, true⟩, afterTerminatorOff, true)

def collectFrom (src : List UInt8) : Nat → List PendingHeredoc → CollectionResult
  | nextOffset, [] => ⟨[], [], nextOffset⟩
  | nextOffset, hd :: pending =>
    let (content, offset, found) := collectOne src (max nextOffset hd.bodyStart) hd
    let behind := collectFrom src offset pending
    ⟨content :: behind.contents, found :: behind.terminatorsFound, behind.nextOffset⟩

def collectAtDeclarationOffsets (src : List UInt8) (pending : List PendingHeredoc) : CollectionResult :=
  collectFrom src ((pending.head?.map PendingHeredoc.bodyStart).getD 0) pending

structure Line where
  start : Nat
  content : List UInt8
  ending : Nat
  deriving DecidableEq

def Line.stop (line : Line) : Nat := line.start + line.content.length

def Line.next (line : Line) : Nat := line.stop + line.ending

def Line.span (line : Line) : ByteSpan := ⟨line.start, line.stop⟩

/-- The lines of a text whose first line has begun with `current` at `start`. -/
def linesFrom : Nat → List UInt8 → List UInt8 → List Line
  | start, current, [] => if current = [] then [] else [⟨start, current, 0⟩]
  | start, current, byte :: rest =>
    if byte = lineFeed then
      ⟨start, current, 1⟩ :: linesFrom (start + current.length + 1) [] rest
    else if byte = carriageReturn then
      match rest with
      | [] => [⟨start, current, 1⟩]
      | second :: tail =>
        if second = lineFeed then ⟨start, current, 2⟩ :: linesFrom (start + current.length + 2) [] tail
        else ⟨start, current, 1⟩ :: linesFrom (start + current.length + 1) [] (second :: tail)
    else linesFrom start (current ++ [byte]) rest

def linesAt (src : List UInt8) (off : Nat) : List Line := linesFrom off [] (src.drop off)

theorem linesFrom_unbroken (start : Nat) (current plain rest : List UInt8)
    (unbroken : ∀ byte ∈ plain, isLineBreak byte = false) :
    linesFrom start current (plain ++ rest) = linesFrom start (current ++ plain) rest := by
  induction plain generalizing current with
  | nil => simp
  | cons byte plain ih =>
    obtain ⟨inside, unbroken⟩ := forall_mem_cons.mp unbroken
    simp only [isLineBreak, Bool.or_eq_false_iff, beq_eq_false_iff_ne] at inside
    rw [cons_append, linesFrom.eq_def]
    simp only [if_neg inside.1, if_neg inside.2]
    rw [ih _ unbroken]
    simp

/-- The line break at the front of a text that begins with one. -/
theorem linesFrom_break (start : Nat) (current rest : List UInt8) (byte : UInt8)
    (breaks : isLineBreak byte = true) : ∃ ending, 1 ≤ ending ∧ ending ≤ (byte :: rest).length ∧
      (ending = if byte = carriageReturn ∧ rest.head? = some lineFeed then 2 else 1) ∧
      linesFrom start current (byte :: rest) = ⟨start, current, ending⟩ ::
        linesFrom (start + current.length + ending) [] ((byte :: rest).drop ending) := by
  rw [linesFrom.eq_def]
  by_cases feed : byte = lineFeed
  · subst feed
    exact ⟨1, by simp, by simp, by simp [lineFeed, carriageReturn], by simp⟩
  have returned : byte = carriageReturn := by simpa [isLineBreak, feed] using breaks
  subst returned
  simp only [if_neg feed, ↓reduceIte]
  cases rest with
  | nil => exact ⟨1, by simp, by simp, by simp, by simp [linesFrom]⟩
  | cons second tail =>
    by_cases pair : second = lineFeed
    · subst pair
      exact ⟨2, by simp, by simp, by simp, by simp⟩
    · exact ⟨1, by simp, by simp, by simp [pair], by simp [pair]⟩

/-- The bounds of a line are those of the first physical line. -/
theorem linesAt_cons (src : List UInt8) (off : Nat) (within : off < src.length) :
    ∃ line, line.start = off ∧ nextLineBounds src off = (off, line.stop, line.next) ∧
      line.content = slice src off line.stop ∧ (∀ byte ∈ line.content, isLineBreak byte = false) ∧
      line.next ≤ src.length ∧ off < line.next ∧
      linesAt src off = line :: linesAt src line.next := by
  have unbroken : ∀ byte ∈ (src.drop off).takeWhile (fun byte => !isLineBreak byte),
      isLineBreak byte = false := fun byte among => by simpa using mem_takeWhile_imp among
  have boundary := head?_dropWhile_not (fun byte => !isLineBreak byte) (src.drop off)
  have split : (src.drop off).takeWhile (fun byte => !isLineBreak byte) ++
      (src.drop off).dropWhile (fun byte => !isLineBreak byte) = src.drop off :=
    takeWhile_append_dropWhile
  unfold nextLineBounds
  generalize (src.drop off).takeWhile (fun byte => !isLineBreak byte) = plain at *
  generalize (src.drop off).dropWhile (fun byte => !isLineBreak byte) = tail at *
  have behind : src.drop (off + plain.length) = tail := by
    rw [← drop_drop, ← split, drop_left]
  have lines : linesAt src off = linesFrom off plain tail := by
    rw [linesAt, ← split, linesFrom_unbroken off [] plain tail unbroken, nil_append]
  have content : plain = slice src off (off + plain.length) := by
    rw [slice, Nat.add_sub_cancel_left, ← split, take_left]
  have size : plain.length + tail.length = src.length - off := by
    rw [← length_append, split, length_drop]
  rw [lines]
  cases tail with
  | nil =>
    have filled : plain ≠ [] := by
      rintro rfl
      simp at size
      omega
    have ended : src.length ≤ off + plain.length := by
      simp at size
      omega
    refine ⟨⟨off, plain, 0⟩, rfl, ?_, content, unbroken, ?_, ?_, ?_⟩
    · simp [behind, Line.next, Line.stop]
    · simp [Line.next, Line.stop] at size ⊢
      omega
    · simp [Line.next, Line.stop]
      omega
    · simp [linesFrom, filled, linesAt, Line.next, Line.stop, behind]
  | cons byte rest =>
    have breaks : isLineBreak byte = true := by simpa using boundary
    obtain ⟨ending, least, most, width, onward⟩ := linesFrom_break off plain rest byte breaks
    refine ⟨⟨off, plain, ending⟩, rfl, ?_, content, unbroken, ?_, ?_, ?_⟩
    · simp only [behind, Line.next, Line.stop, width]
      by_cases returned : byte = carriageReturn
      · by_cases pair : rest.head? = some lineFeed <;> simp [returned, pair]
      · have feed : byte = lineFeed := by simpa [isLineBreak, returned] using breaks
        simp [feed, lineFeed, carriageReturn]
    · simp only [Line.next, Line.stop]
      omega
    · simp only [Line.next, Line.stop]
      omega
    · rw [onward, ← behind, drop_drop]
      rfl

structure LineOf (src : List UInt8) (line : Line) : Prop where
  content : line.content = slice src line.start line.stop
  clean : ∀ byte ∈ line.content, isLineBreak byte = false
  within : line.next ≤ src.length

theorem linesAt_end (src : List UInt8) (off : Nat) (past : src.length ≤ off) : linesAt src off = [] := by
  rw [linesAt, drop_eq_nil_of_le past]
  rfl

theorem linesAt_ordered (src : List UInt8) (off : Nat) :
    (∀ line ∈ linesAt src off, LineOf src line ∧ off ≤ line.start) ∧
      (linesAt src off).Pairwise fun earlier later => earlier.next ≤ later.start := by
  induction left : src.length - off using Nat.strong_induction_on generalizing off with
  | h bound ih =>
    by_cases past : src.length ≤ off
    · rw [linesAt_end src off past]
      exact ⟨nofun, List.Pairwise.nil⟩
    obtain ⟨line, started, -, content, clean, within, advanced, lines⟩ :=
      linesAt_cons src off (by omega)
    obtain ⟨behind, ordered⟩ := ih (src.length - line.next) (by omega) line.next rfl
    rw [lines]
    refine ⟨?_, pairwise_cons.mpr ⟨fun later among => (behind later among).2, ordered⟩⟩
    rw [forall_mem_cons]
    refine ⟨⟨⟨started ▸ content, clean, within⟩, started.ge⟩, fun later among => ?_⟩
    exact ⟨(behind later among).1, by have := (behind later among).2; omega⟩

namespace PendingHeredoc

/-- What the loop takes for the terminator: the label behind spaces and tabs. -/
def accepts (hd : PendingHeredoc) (line : Line) : Bool := line.content.dropWhile isBlank == hd.label

def terminatedBy (hd : PendingHeredoc) (line : Line) : Bool :=
  if hd.allowIndent then line.content.dropWhile isBlank == hd.label else line.content == hd.label

def indentOf (hd : PendingHeredoc) (line : Line) : List UInt8 :=
  if hd.allowIndent then line.content.takeWhile isBlank else []

end PendingHeredoc

variable (line : List UInt8)

theorem strip_clean (clean : ∀ byte ∈ line, isLineBreak byte = false) : stripTrailingCr line = line := by
  have other : line.getLast? ≠ some carriageReturn := by
    intro ends
    have inside := clean carriageReturn (mem_of_getLast? ends)
    simp [isLineBreak] at inside
  rw [stripTrailingCr, if_neg other]

theorem drop_leading : line.drop (line.takeWhile isBlank).length = line.dropWhile isBlank :=
  (congrArg (List.drop _) takeWhile_append_dropWhile.symm).trans drop_left

theorem take_leading : line.take (line.takeWhile isBlank).length = line.takeWhile isBlank :=
  (congrArg (List.take _) takeWhile_append_dropWhile.symm).trans take_left

section
variable (src : List UInt8) (hd : PendingHeredoc) (fuel off : Nat) (rawLines : List ByteSpan)
include src hd fuel off rawLines

/-- One turn of the loop looks at one physical line. -/
theorem collectLoop_turn (line : Line) (started : line.start = off)
    (bounds : nextLineBounds src off = (off, line.stop, line.next))
    (content : line.content = slice src off line.stop)
    (clean : ∀ byte ∈ line.content, isLineBreak byte = false) (within : off < src.length) :
    collectLoop src hd (fuel + 1) off rawLines =
      if hd.accepts line then (rawLines, some (hd.indentOf line, line.next), off)
      else collectLoop src hd fuel line.next (rawLines ++ [line.span]) := by
  have restClean : ∀ byte ∈ line.content.dropWhile isBlank, isLineBreak byte = false :=
    fun byte among => clean byte (dropWhile_suffix isBlank |>.subset among)
  rw [collectLoop, if_neg (not_le.mpr within), bounds]
  simp only [splitLeadingWs, ← content, drop_leading, take_leading, strip_clean _ restClean,
    PendingHeredoc.accepts, beq_iff_eq, PendingHeredoc.indentOf, Line.span, started]

/-- The loop walks over the physical lines up to the first one it accepts. -/
theorem collectLoop_lines (enough : src.length ≤ off + fuel) : (collectLoop src hd fuel off rawLines).1 =
        rawLines ++ ((linesAt src off).takeWhile fun line => !hd.accepts line).map Line.span ∧
      (collectLoop src hd fuel off rawLines).2.1 =
        ((linesAt src off).find? hd.accepts).map (fun line => (hd.indentOf line, line.next)) ∧
      ((linesAt src off).find? hd.accepts = none →
        (collectLoop src hd fuel off rawLines).2.2 = max off src.length) := by
  induction fuel generalizing off rawLines with
  | zero =>
    have past : src.length ≤ off := enough
    simp only [linesAt_end src off past, collectLoop]
    simp
    omega
  | succ fuel ih =>
    by_cases past : src.length ≤ off
    · simp only [linesAt_end src off past, collectLoop, if_pos past]
      simp
      omega
    obtain ⟨line, started, bounds, content, clean, within, advanced, lines⟩ :=
      linesAt_cons src off (by omega)
    rw [collectLoop_turn src hd fuel off rawLines line started bounds content clean (by omega), lines]
    cases accepted : hd.accepts line with
    | true => simp [accepted]
    | false =>
      obtain ⟨raw, terminator, stopped⟩ := ih line.next (rawLines ++ [line.span]) (by omega)
      simp only [Bool.false_eq_true, ↓reduceIte, find?_cons, accepted]
      refine ⟨by rw [raw]; simp [accepted], terminator, fun none => ?_⟩
      rw [stopped none]
      omega

end

/-- What a heredoc is to get: its lines' spans, whether it is terminated, and where the source goes
on. -/
structure Body where
  segments : List ByteSpan
  terminated : Bool
  next : Nat
  deriving DecidableEq

/-- The lines up to the first that passes the test, each without its longest common prefix with that
line's indent. -/
def bodyAt (src : List UInt8) (hd : PendingHeredoc) (test : Line → Bool) (off : Nat) : Body :=
  let lines := linesAt src off
  let closing := lines.find? test
  let indent := (closing.map hd.indentOf).getD []
  { segments := (lines.takeWhile fun line => !test line).map fun line =>
      ⟨line.start + commonPrefixLen line.content indent, line.stop⟩
    terminated := closing.isSome
    next := closing.elim src.length Line.next }

theorem commonPrefixLen_nil (left : List UInt8) : commonPrefixLen left [] = 0 := by
  cases left <;> rfl

theorem commonPrefixLen_greatest (left right : List UInt8) :
    commonPrefixLen left right ≤ left.length ∧ left.take (commonPrefixLen left right) <+: right ∧
      ∀ front, front <+: left → front <+: right → front.length ≤ commonPrefixLen left right := by
  induction left generalizing right with
  | nil =>
    refine ⟨by simp [commonPrefixLen], by simp, fun front leads _ => ?_⟩
    rw [prefix_nil.mp leads]
    exact zero_le _
  | cons byte left ih =>
    cases right with
    | nil =>
      refine ⟨by simp [commonPrefixLen], by simp [commonPrefixLen], fun front _ leads => ?_⟩
      rw [prefix_nil.mp leads]
      exact zero_le _
    | cons other right =>
      by_cases same : byte = other
      · subst same
        obtain ⟨within, shared, most⟩ := ih right
        simp only [commonPrefixLen, ↓reduceIte]
        refine ⟨succ_le_succ within, by simpa using shared, fun front leads follows => ?_⟩
        cases front with
        | nil => exact zero_le _
        | cons first front =>
          exact succ_le_succ (most front (cons_prefix_cons.mp leads).2 (cons_prefix_cons.mp follows).2)
      · simp only [commonPrefixLen, if_neg same]
        refine ⟨zero_le _, by simp, fun front leads follows => ?_⟩
        cases front with
        | nil => exact le_refl _
        | cons first front =>
          exact absurd ((cons_prefix_cons.mp leads).1.symm.trans (cons_prefix_cons.mp follows).1) same

theorem collectOne_body (src : List UInt8) (off : Nat) (hd : PendingHeredoc) :
    (collectOne src off hd).1.segments = (bodyAt src hd hd.accepts off).segments ∧
      (collectOne src off hd).1.terminated = (bodyAt src hd hd.accepts off).terminated ∧
      (collectOne src off hd).2.2 = (bodyAt src hd hd.accepts off).terminated ∧
      (collectOne src off hd).2.1 = max (if (bodyAt src hd hd.accepts off).terminated then 0 else off)
          (bodyAt src hd hd.accepts off).next := by
  obtain ⟨raw, terminator, stopped⟩ := collectLoop_lines src hd src.length off [] (by omega)
  have stripped : ∀ indent, ((linesAt src off).takeWhile fun line => !hd.accepts line).map
      (fun line => stripIndent src indent line.span) =
      ((linesAt src off).takeWhile fun line => !hd.accepts line).map fun line =>
        ⟨line.start + commonPrefixLen line.content indent, line.stop⟩ := by
    intro indent
    refine map_congr_left fun line among => ?_
    have lineOf := ((linesAt_ordered src off).1 line (takeWhile_subset _ among)).1
    unfold stripIndent
    split
    · next none => simp [none, commonPrefixLen_nil, Line.span]
    · simp [Line.span, lineOf.content]
  unfold collectOne bodyAt
  generalize collectLoop src hd src.length off [] = looped at raw terminator stopped ⊢
  obtain ⟨rawLines, found, halted⟩ := looped
  simp only [nil_append] at raw terminator stopped
  subst raw terminator
  cases closing : (linesAt src off).find? hd.accepts with
  | none =>
    obtain rfl := stopped closing
    simp [closing, Function.comp_def, stripped]
  | some line => simp [closing, Function.comp_def, stripped]

structure SegmentsWithin (src : List UInt8) (low high : Nat) (segments : List ByteSpan) : Prop where
  bounds : ∀ segment ∈ segments, low ≤ segment.start ∧ segment.start ≤ segment.stop ∧ segment.stop ≤ high
  ordered : segments.Pairwise fun earlier later => earlier.stop ≤ later.start
  clean : ∀ segment ∈ segments, ∀ byte ∈ slice src segment.start segment.stop, isLineBreak byte = false

theorem SegmentsWithin.append {src : List UInt8} {low middle high : Nat} {left right : List ByteSpan}
    (leftWithin : SegmentsWithin src low middle left) (rightWithin : SegmentsWithin src middle high right)
    (lower : low ≤ middle) (upper : middle ≤ high) : SegmentsWithin src low high (left ++ right) where
  bounds := by
    intro segment among
    rcases mem_append.mp among with held | held
    · have := leftWithin.bounds segment held
      omega
    · have := rightWithin.bounds segment held
      omega
  ordered := by
    refine pairwise_append.mpr ⟨leftWithin.ordered, rightWithin.ordered, ?_⟩
    intro earlier before later after
    have := leftWithin.bounds earlier before
    have := rightWithin.bounds later after
    omega
  clean := by
    intro segment among
    rcases mem_append.mp among with held | held
    · exact leftWithin.clean segment held
    · exact rightWithin.clean segment held

/-- An indent is taken away inside the line. -/
theorem segment_clean (src : List UInt8) (line : Line) (lineOf : LineOf src line) (strip : Nat) :
    ∀ byte ∈ slice src (line.start + strip) line.stop, isLineBreak byte = false := by
  have part : slice src (line.start + strip) line.stop = line.content.drop strip := by
    rw [lineOf.content, slice, slice, drop_take, drop_drop]
    congr 1
    omega
  rw [part]
  exact fun byte among => lineOf.clean byte (drop_subset _ _ among)

theorem lines_before (lines : List Line) (test : Line → Bool) :
    (∃ closing behind, lines.find? test = some closing ∧ test closing = true ∧
      lines = lines.takeWhile (fun line => !test line) ++ closing :: behind) ∨
    (lines.find? test = none ∧ lines.takeWhile (fun line => !test line) = lines) := by
  induction lines with
  | nil => exact .inr ⟨rfl, rfl⟩
  | cons line lines ih =>
    cases passes : test line with
    | true => exact .inl ⟨line, lines, by simp [passes], passes, by simp [passes]⟩
    | false =>
      rcases ih with ⟨closing, behind, found, closes, split⟩ | ⟨none, whole⟩
      · refine .inl ⟨closing, behind, by simp [passes, found], closes, ?_⟩
        rw [takeWhile_cons_of_pos (by simp [passes]), cons_append, ← split]
      · exact .inr ⟨by simp [passes, none], by
          rw [takeWhile_cons_of_pos (by simp [passes]), whole]⟩

section
variable (src : List UInt8) (hd : PendingHeredoc) (test : Line → Bool) (off : Nat)
include src hd test off

theorem bodyAt_within : SegmentsWithin src off (max (if (bodyAt src hd test off).terminated then 0 else off)
      (bodyAt src hd test off).next) (bodyAt src hd test off).segments := by
  obtain ⟨lineOf, ordered⟩ := linesAt_ordered src off
  have taken := takeWhile_prefix (p := fun line => !test line) (l := linesAt src off)
  have upper : ∀ line ∈ (linesAt src off).takeWhile (fun line => !test line),
      line.stop ≤ (bodyAt src hd test off).next := by
    intro line among
    have ends : line.stop ≤ line.next := le_add_right _ _
    unfold bodyAt
    rcases lines_before (linesAt src off) test with ⟨closing, behind, found, -, split⟩ | ⟨none, -⟩
    · rw [split] at ordered
      have before := (pairwise_append.mp ordered).2.2 line among closing mem_cons_self
      simp only [found, elim_some]
      have := le_add_right closing.start closing.content.length
      unfold Line.next Line.stop at *
      omega
    · simp only [none, elim_none]
      exact le_trans ends (lineOf line (taken.subset among)).1.within
  have strip : ∀ (line : Line) (indent : List UInt8),
      line.start + commonPrefixLen line.content indent ≤ line.stop := fun line indent =>
    Nat.add_le_add_left (commonPrefixLen_greatest line.content indent).1 _
  constructor
  · intro segment among
    obtain ⟨line, held, rfl⟩ := mem_map.mp among
    have low := (lineOf line (taken.subset held)).2
    refine ⟨le_trans low (le_add_right _ _), strip line _, ?_⟩
    exact le_trans (upper line held) (le_max_right _ _)
  · refine pairwise_map.mpr ((ordered.sublist taken.sublist).imp ?_)
    intro earlier later before
    have := le_add_right earlier.stop earlier.ending
    unfold Line.next at before
    show earlier.stop ≤ later.start + _
    omega
  · intro segment among
    obtain ⟨line, held, rfl⟩ := mem_map.mp among
    exact segment_clean src line (lineOf line (taken.subset held)).1 _

theorem bodyAt_next : (bodyAt src hd test off).next ≤ src.length ∧
      ((bodyAt src hd test off).terminated = true → off ≤ (bodyAt src hd test off).next) := by
  cases found : (linesAt src off).find? test with
  | none => simp [bodyAt, found]
  | some closing =>
    obtain ⟨lineOf, started⟩ := (linesAt_ordered src off).1 closing (mem_of_find?_eq_some found)
    have behind : off ≤ closing.next :=
      le_trans started (le_trans (le_add_right _ _) (le_add_right _ _))
    simpa [bodyAt, found, behind] using lineOf.within

end

theorem collectFrom_cons (src : List UInt8) (off : Nat) (hd : PendingHeredoc)
    (pending : List PendingHeredoc) :
    collectFrom src off (hd :: pending) = ⟨(collectOne src (max off hd.bodyStart) hd).1 ::
          (collectFrom src (collectOne src (max off hd.bodyStart) hd).2.1 pending).contents,
        (collectOne src (max off hd.bodyStart) hd).2.2 ::
          (collectFrom src (collectOne src (max off hd.bodyStart) hd).2.1 pending).terminatorsFound,
        (collectFrom src (collectOne src (max off hd.bodyStart) hd).2.1 pending).nextOffset⟩ := rfl

theorem collectFrom_within (src : List UInt8) (pending : List PendingHeredoc) (off : Nat) :
    SegmentsWithin src off (collectFrom src off pending).nextOffset
        ((collectFrom src off pending).contents.flatMap HeredocContent.segments) ∧
      off ≤ (collectFrom src off pending).nextOffset ∧
      ∀ hd ∈ pending, hd.bodyStart ≤ (collectFrom src off pending).nextOffset := by
  induction pending generalizing off with
  | nil => exact ⟨⟨nofun, List.Pairwise.nil, nofun⟩, le_refl _, nofun⟩
  | cons hd pending ih =>
    obtain ⟨segments, -, -, offset⟩ := collectOne_body src (max off hd.bodyStart) hd
    have body := bodyAt_within src hd hd.accepts (max off hd.bodyStart)
    have reached := (bodyAt_next src hd hd.accepts (max off hd.bodyStart)).2
    obtain ⟨behind, later, starts⟩ := ih (collectOne src (max off hd.bodyStart) hd).2.1
    have advanced : max off hd.bodyStart ≤ (collectOne src (max off hd.bodyStart) hd).2.1 := by
      rw [offset]
      cases ended : (bodyAt src hd hd.accepts (max off hd.bodyStart)).terminated with
      | true => exact le_trans (reached ended) (le_max_right _ _)
      | false => exact le_max_left _ _
    rw [← segments] at body
    have lowered : SegmentsWithin src off (collectOne src (max off hd.bodyStart) hd).2.1
        (collectOne src (max off hd.bodyStart) hd).1.segments :=
      ⟨fun segment among => by have := body.bounds segment among; omega, body.ordered, body.clean⟩
    simp only [collectFrom_cons]
    refine ⟨lowered.append behind (by omega) later, by omega, ?_⟩
    rw [forall_mem_cons]
    exact ⟨by omega, starts⟩

/-- Each heredoc goes on where the last one has ended, or where its line begins. -/
def bodiesFrom (src : List UInt8) : Nat → List PendingHeredoc → List Body
  | _, [] => []
  | off, hd :: pending =>
    let body := bodyAt src hd hd.terminatedBy (max off hd.bodyStart)
    body :: bodiesFrom src body.next pending

def firstStart (pending : List PendingHeredoc) : Nat :=
  (pending.head?.map PendingHeredoc.bodyStart).getD 0

/-- The segments and terminators are those the labels ask for, and the next offset is where the last
body ends. -/
structure CollectedFrom (src : List UInt8) (off : Nat) (pending : List PendingHeredoc)
    (result : CollectionResult) : Prop where
  segments : result.contents.map HeredocContent.segments = (bodiesFrom src off pending).map Body.segments
  terminated : result.contents.map HeredocContent.terminated =
    (bodiesFrom src off pending).map Body.terminated
  found : result.terminatorsFound = (bodiesFrom src off pending).map Body.terminated
  next : ∀ last ∈ (bodiesFrom src off pending).getLast?, result.nextOffset = last.next

def LabelStands (src : List UInt8) (hd : PendingHeredoc) (off : Nat) : Prop :=
  ∀ front line behind, linesAt src off = front ++ line :: behind →
    (∀ earlier ∈ front, hd.terminatedBy earlier = false) → hd.accepts line = hd.terminatedBy line

def LabelsStand (src : List UInt8) : Nat → List PendingHeredoc → Prop
  | _, [] => True
  | off, hd :: pending =>
    LabelStands src hd (max off hd.bodyStart) ∧
      LabelsStand src (bodyAt src hd hd.terminatedBy (max off hd.bodyStart)).next pending

theorem first_alike (lines : List Line) (left right : Line → Bool) :
    (∀ front line behind, lines = front ++ line :: behind →
      (∀ earlier ∈ front, right earlier = false) → left line = right line) ↔
    (lines.takeWhile fun line => !left line).length = (lines.takeWhile fun line => !right line).length := by
  induction lines with
  | nil => simp
  | cons line lines ih =>
    constructor
    · intro alike
      have here := alike [] line lines rfl nofun
      cases passes : right line with
      | true => simp [here, passes]
      | false =>
        have behind := ih.mp fun front other rest split none =>
          alike (line :: front) other rest (by rw [split]; rfl) (by simpa [passes] using none)
        simp [here, passes, behind]
    · intro same front other behind split none
      cases front with
      | nil =>
        obtain ⟨rfl, rfl⟩ := List.cons.inj split
        cases leftPasses : left line <;> cases rightPasses : right line <;>
          simp [leftPasses, rightPasses] at same ⊢
      | cons first front =>
        obtain ⟨rfl, rfl⟩ := List.cons.inj split
        obtain ⟨notRight, none⟩ := forall_mem_cons.mp none
        cases leftPasses : left line with
        | true => simp [leftPasses, notRight] at same
        | false =>
          simp only [leftPasses, notRight, Bool.not_false, takeWhile_cons_of_pos,
            length_cons, Nat.add_right_cancel_iff] at same
          exact ih.mpr same front other behind rfl none

theorem find?_of_alike (lines : List Line) (left right : Line → Bool)
    (alike : ∀ front line behind, lines = front ++ line :: behind →
      (∀ earlier ∈ front, right earlier = false) → left line = right line) :
    lines.find? left = lines.find? right ∧
      (lines.takeWhile fun line => !left line) = lines.takeWhile fun line => !right line := by
  induction lines with
  | nil => exact ⟨rfl, rfl⟩
  | cons line lines ih =>
    have here := alike [] line lines rfl nofun
    cases passes : right line with
    | true => simp [here, passes]
    | false =>
      obtain ⟨found, taken⟩ := ih fun front other rest split none =>
        alike (line :: front) other rest (by rw [split]; rfl) (by simpa [passes] using none)
      simp [here, passes, found, taken]

section
variable (src : List UInt8)
include src

theorem body_of_labelStands (hd : PendingHeredoc) (off : Nat) (stands : LabelStands src hd off) :
    bodyAt src hd hd.accepts off = bodyAt src hd hd.terminatedBy off := by
  obtain ⟨found, taken⟩ := find?_of_alike (linesAt src off) hd.accepts hd.terminatedBy stands
  simp only [bodyAt, found, taken]

theorem labelStands_of_segments (hd : PendingHeredoc) (off : Nat)
    (same : (bodyAt src hd hd.accepts off).segments = (bodyAt src hd hd.terminatedBy off).segments) :
    LabelStands src hd off := by
  refine (first_alike (linesAt src off) hd.accepts hd.terminatedBy).mpr ?_
  simpa [bodyAt] using congrArg List.length same

theorem bodiesFrom_next (off : Nat) (pending : List PendingHeredoc) :
    ∀ body ∈ bodiesFrom src off pending, body.next ≤ src.length := by
  induction pending generalizing off with
  | nil => nofun
  | cons hd pending ih =>
    rw [bodiesFrom, forall_mem_cons]
    exact ⟨(bodyAt_next src hd hd.terminatedBy _).1, ih _⟩

theorem collectOne_offset (off : Nat) (hd : PendingHeredoc) (within : off ≤ src.length) :
    (collectOne src off hd).2.1 = (bodyAt src hd hd.accepts off).next := by
  rw [(collectOne_body src off hd).2.2.2]
  cases ended : (bodyAt src hd hd.accepts off).terminated with
  | true => simp
  | false =>
    have last : (bodyAt src hd hd.accepts off).next = src.length := by
      simp only [bodyAt, isSome_eq_false_iff, isNone_iff_eq_none] at ended
      simp [bodyAt, ended]
    simp [last, within]

theorem collectedFrom_iff (pending : List PendingHeredoc) (off : Nat)
    (inside : off ≤ src.length) (starts : ∀ hd ∈ pending, hd.bodyStart ≤ src.length) :
    CollectedFrom src off pending (collectFrom src off pending) ↔ LabelsStand src off pending := by
  induction pending generalizing off with
  | nil => exact iff_of_true ⟨rfl, rfl, rfl, nofun⟩ trivial
  | cons hd pending ih =>
    obtain ⟨start, starts⟩ := forall_mem_cons.mp starts
    have within : max off hd.bodyStart ≤ src.length := max_le inside start
    obtain ⟨segments, terminated, found, -⟩ := collectOne_body src (max off hd.bodyStart) hd
    have offset := collectOne_offset src (max off hd.bodyStart) hd within
    rw [collectFrom_cons]
    constructor
    · intro collected
      have sameSegments := (List.cons.inj collected.segments).1
      rw [segments] at sameSegments
      have stands := labelStands_of_segments src hd _ sameSegments
      have body := body_of_labelStands src hd _ stands
      rw [offset, body] at collected
      refine ⟨stands, (ih _ (bodyAt_next src hd hd.terminatedBy _).1 starts).mp ⟨?_, ?_, ?_, ?_⟩⟩
      · exact (List.cons.inj collected.segments).2
      · exact (List.cons.inj collected.terminated).2
      · exact (List.cons.inj collected.found).2
      · intro last ends
        refine collected.next last ?_
        have among : (bodiesFrom src (bodyAt src hd hd.terminatedBy (max off hd.bodyStart)).next
            pending).getLast? = some last := ends
        simp [bodiesFrom, getLast?_cons, among]
    · rintro ⟨stands, behind⟩
      have body := body_of_labelStands src hd _ stands
      rw [offset, body]
      have collected := (ih _ (bodyAt_next src hd hd.terminatedBy _).1 starts).mpr behind
      rw [body] at segments terminated found
      constructor
      · simp only [bodiesFrom, map_cons, segments, collected.segments]
      · simp only [bodiesFrom, map_cons, terminated, collected.terminated]
      · simp only [bodiesFrom, map_cons, found, collected.found]
      · intro last ends
        cases pending with
        | nil =>
          obtain rfl : _ = last := Option.some.inj ends
          rfl
        | cons next pending => exact collected.next last ends

end

/-- The segments are always clean, ordered and apart; they and the next offset are those the labels
ask for exactly when every body starts inside the source and no heredoc that is not indented has its
label behind blanks on a line before its terminator. -/
theorem collected_iff (src : List UInt8) (pending : List PendingHeredoc) :
    SegmentsWithin src (firstStart pending) (collectAtDeclarationOffsets src pending).nextOffset
        ((collectAtDeclarationOffsets src pending).contents.flatMap HeredocContent.segments) ∧
      (CollectedFrom src (firstStart pending) pending (collectAtDeclarationOffsets src pending) ↔
        (∀ hd ∈ pending, hd.bodyStart ≤ src.length) ∧ LabelsStand src (firstStart pending) pending) := by
  obtain ⟨within, -, starts⟩ := collectFrom_within src pending (firstStart pending)
  refine ⟨within, ?_⟩
  have inside : (∀ hd ∈ pending, hd.bodyStart ≤ src.length) → firstStart pending ≤ src.length := by
    intro all
    cases pending with
    | nil => exact zero_le _
    | cons hd pending => exact all hd mem_cons_self
  constructor
  · intro collected
    have all : ∀ hd ∈ pending, hd.bodyStart ≤ src.length := by
      intro hd among
      cases pending with
      | nil => cases among
      | cons first pending =>
        obtain ⟨last, ends⟩ : ∃ last, (bodiesFrom src (firstStart (first :: pending))
            (first :: pending)).getLast? = some last := ⟨_, getLast?_cons⟩
        have final := collected.next last ends
        have bounded := bodiesFrom_next src _ _ last (mem_of_getLast? ends)
        exact (starts hd among).trans (final.trans_le bounded)
    exact ⟨all, (collectedFrom_iff src pending _ (inside all) all).mp collected⟩
  · rintro ⟨all, stands⟩
    exact (collectedFrom_iff src pending _ (inside all) all).mpr stands

/-- `  EOF` and `EOF` -/
def indentedThenPlain : List UInt8 := [0x20, 0x20, 0x45, 0x4F, 0x46, 0x0A, 0x45, 0x4F, 0x46, 0x0A]

def plainEof : PendingHeredoc := ⟨[0x45, 0x4F, 0x46], false, 0⟩

/-- The first line ends the body although it is not the label. -/
theorem indented_label_terminates :
    ¬ ∀ src pending, pending.Pairwise (fun earlier later => earlier.bodyStart ≤ later.bodyStart) →
      CollectedFrom src (firstStart pending) pending (collectAtDeclarationOffsets src pending) := by
  intro every
  have collected := every indentedThenPlain [plainEof] (pairwise_singleton _ _)
  exact absurd collected.segments (by decide)

end PerlLsp.HeredocCollector
