import PerlLsp.Runs
import PerlLsp.Tables
import Mathlib.Data.List.Sort
import Mathlib.Algebra.Ring.Nat
import Mathlib.Algebra.BigOperators.Group.List.Basic

/-! The file-watcher coalescer of runtime/file_watcher_debounce.rs: callers schedule subjects, the
intake worker moves those that are due into an outbox of batches, the dispatcher hands one batch at
a time to a callback. Each locked section is one step, and so is what the dispatcher does outside
the lock when the callback ends. The binary heap is the list of its entries in popping order.
Wake-ups and the test-only instrumentation are left out. -/
namespace PerlLsp.WatcherDebounce
open List hiding getElem?_insert
open Std Runs Tables Nat

def maxLatencyIntervals : Nat := 10
def maxPendingSubjects : Nat := 4096
def maxBatchSubjects : Nat := 512
def maxOutboxBatches : Nat := 8
def maxHeapEntries : Nat := 2 * maxPendingSubjects

def saturatingAdd (left right : Nat) : Nat := min (left + right) (2 ^ 64 - 1)
def saturatingMul (left right : Nat) : Nat := min (left * right) (2 ^ 64 - 1)
def wrappingAdd (left right : Nat) : Nat := (left + right) % 2 ^ 64
def wrappingSub (left right : Nat) : Nat := (left + (2 ^ 64 - right)) % 2 ^ 64

theorem wrapping_add_exact (left right : Nat) (small : left + right < 2 ^ 64) :
    wrappingAdd left right = left + right := mod_eq_of_lt small

theorem wrapping_sub_exact (left right : Nat) (below : right ≤ left) (small : left < 2 ^ 64) :
    wrappingSub left right = left - right := by
  have moved : left + (2 ^ 64 - right) = 2 ^ 64 + (left - right) := by omega
  rw [wrappingSub, moved, add_mod_left, mod_eq_of_lt (Nat.lt_of_le_of_lt (sub_le left right) small)]

inductive WatcherAdmission where
  | accepted
  | coalesced
  | overflowed
  | unavailable
  | shuttingDown
  deriving DecidableEq

structure SubjectDeadlines where
  quietDeadline : Nat
  maxDeadline : Nat
  seq : Nat
  deriving DecidableEq

structure HeapEntry where
  deadline : Nat
  seq : Nat
  uri : String
  deriving DecidableEq

open HeapEntry

namespace HeapEntry

def Before (left right : HeapEntry) : Prop :=
  left.deadline < right.deadline ∨ left.deadline = right.deadline ∧
    (left.seq < right.seq ∨ left.seq = right.seq ∧ left.uri ≤ right.uri)

instance : DecidableRel Before := fun left right =>
  inferInstanceAs (Decidable (left.deadline < right.deadline ∨ _ ∧ (_ ∨ _ ∧ _)))

/-- The order of a batch. -/
def DueBefore (left right : HeapEntry) : Prop :=
  left.deadline < right.deadline ∨ left.deadline = right.deadline ∧ left.uri ≤ right.uri

instance : DecidableRel DueBefore := fun left right =>
  inferInstanceAs (Decidable (left.deadline < right.deadline ∨ _ ∧ _))

end HeapEntry

abbrev Subjects := TreeMap String SubjectDeadlines

def live (subjects : Subjects) (entry : HeapEntry) : Bool :=
  subjects[entry.uri]?.any fun deadlines => deadlines.seq == entry.seq

structure IntakeState where
  subjects : Subjects
  heap : List HeapEntry
  outbox : List (List String)
  nextSeq : Nat
  shuttingDown : Bool

def pushHeapEntry (heap : List HeapEntry) (entry : HeapEntry) : List HeapEntry :=
  heap.orderedInsert Before entry

/-- `peek_live_deadline` pops the stale entries at the head. -/
def purgeHeads (subjects : Subjects) : List HeapEntry → List HeapEntry
  | [] => []
  | entry :: rest => if live subjects entry then entry :: rest else purgeHeads subjects rest

/-- The loop of `take_due_up_to`: the live entries that are due, and the heap left. -/
def drainDue (subjects : Subjects) (now : Nat) : List HeapEntry → List HeapEntry × List HeapEntry
  | [] => ([], [])
  | entry :: rest =>
    if live subjects entry then
      if now < entry.deadline then ([], entry :: rest)
      else
        let (due, heap) := drainDue subjects now rest
        (entry :: due, heap)
    else drainDue subjects now rest

def restore (subjects : Subjects) (heap : List HeapEntry) (entry : HeapEntry) : List HeapEntry :=
  match subjects[entry.uri]? with
  | some deadlines => pushHeapEntry heap ⟨entry.deadline, deadlines.seq, entry.uri⟩
  | none => heap

namespace IntakeState

def takeDueUpTo (state : IntakeState) (now limit : Nat) : List String × IntakeState :=
  let (due, heap) := drainDue state.subjects now state.heap
  let sorted := due.insertionSort DueBefore
  let out := (sorted.take limit).map HeapEntry.uri
  let subjects := out.foldl TreeMap.erase state.subjects
  (out, { state with
    subjects := subjects
    heap := (sorted.drop limit).foldl (restore subjects) heap })

def purgeStaleEntries (state : IntakeState) : IntakeState :=
  { state with heap := state.heap.filter (live state.subjects) }

end IntakeState

structure CoalescerStats where
  pendingSubjects : Nat
  activeSubjects : Nat
  highWaterSubjects : Nat
  admittedTotal : Nat
  coalescedTotal : Nat
  overflowedTotal : Nat
  unavailableTotal : Nat
  rejectedAfterShutdownTotal : Nat
  batchesDispatched : Nat
  panicDroppedTotal : Nat
  deriving DecidableEq

structure Shared where
  state : IntakeState
  sinkPanic : Bool
  intervalMs : Nat
  maxLatencyMs : Nat
  stats : CoalescerStats
  operational : Bool

/-- `operational` is false when a worker could not be spawned; the other one, if any,
has been halted. -/
def withInterval (intervalMs : Nat) (operational : Bool) : Shared where
  state := ⟨∅, [], [], 0, !operational⟩
  sinkPanic := false
  intervalMs := intervalMs
  maxLatencyMs := saturatingMul intervalMs maxLatencyIntervals
  stats := ⟨0, 0, 0, 0, 0, 0, 0, 0, 0, 0⟩
  operational := operational

namespace Shared

def overflowed (s : Shared) : WatcherAdmission × Shared :=
  (.overflowed, { s with
    stats := { s.stats with overflowedTotal := wrappingAdd s.stats.overflowedTotal 1 } })

def freshSeq (s : Shared) : Nat := wrappingAdd s.state.nextSeq 1

def register (s : Shared) (uri : String) (now : Nat) : WatcherAdmission × Shared :=
  let seq := s.freshSeq
  let quiet := saturatingAdd now s.intervalMs
  match s.state.subjects[uri]? with
  | some deadlines =>
    (.coalesced, { s with
      state := { s.state with
        subjects := s.state.subjects.insert uri ⟨quiet, deadlines.maxDeadline, seq⟩
        heap := pushHeapEntry s.state.heap ⟨min quiet deadlines.maxDeadline, seq, uri⟩
        nextSeq := seq }
      stats := { s.stats with coalescedTotal := wrappingAdd s.stats.coalescedTotal 1 } })
  | none =>
    if maxPendingSubjects ≤ s.state.subjects.size then
      { s with state := { s.state with nextSeq := seq } }.overflowed
    else
      let max := saturatingAdd now s.maxLatencyMs
      let subjects := s.state.subjects.insert uri ⟨quiet, max, seq⟩
      (.accepted, { s with
        state := { s.state with
          subjects := subjects
          heap := pushHeapEntry s.state.heap ⟨min quiet max, seq, uri⟩
          nextSeq := seq }
        stats := { s.stats with
          pendingSubjects := subjects.size
          highWaterSubjects := Nat.max s.stats.highWaterSubjects subjects.size
          admittedTotal := wrappingAdd s.stats.admittedTotal 1 } })

/-- `staleRead`: the caller read `sink_panic` before it was set, as the test is made outside the
lock. -/
def trySchedule (s : Shared) (uri : String) (now : Nat) (staleRead : Bool) :
    WatcherAdmission × Shared :=
  if !s.operational || (s.sinkPanic && !staleRead) then
    (.unavailable, { s with
      stats := { s.stats with unavailableTotal := wrappingAdd s.stats.unavailableTotal 1 } })
  else if s.state.shuttingDown then
    (.shuttingDown, { s with stats := { s.stats with
      rejectedAfterShutdownTotal := wrappingAdd s.stats.rejectedAfterShutdownTotal 1 } })
  else if s.state.heap.length < maxHeapEntries then s.register uri now
  else
    let purged := { s with state := s.state.purgeStaleEntries }
    if purged.state.heap.length < maxHeapEntries then purged.register uri now
    else purged.overflowed

/-- One turn of `intake_loop`. -/
def intake (s : Shared) (now : Nat) : Shared :=
  if s.state.shuttingDown then s
  else if s.sinkPanic then s
  else
    let heap := purgeHeads s.state.subjects s.state.heap
    let s := { s with state := { s.state with heap := heap } }
    match heap with
    | [] => s
    | head :: _ =>
      if now < head.deadline then s
      else if maxOutboxBatches ≤ s.state.outbox.length then s
      else
        let (due, state) := s.state.takeDueUpTo now maxBatchSubjects
        if due.isEmpty then { s with state := state }
        else
          { s with
            state := { state with outbox := state.outbox ++ [due] }
            stats := { s.stats with
              activeSubjects := wrappingAdd s.stats.activeSubjects due.length
              pendingSubjects := state.subjects.size } }

def signalShutdown (s : Shared) : Shared :=
  if s.state.shuttingDown then s
  else
    let remaining := s.state.subjects.keys
    { s with
      state := { s.state with
        subjects := ∅
        heap := []
        outbox := s.state.outbox ++ remaining.toChunks maxBatchSubjects
        shuttingDown := true }
      stats := { s.stats with pendingSubjects := 0 } }

/-- The callback has returned or panicked. -/
def release (s : Shared) (batch : List String) : Shared :=
  { s with stats := { s.stats with
    activeSubjects := wrappingSub s.stats.activeSubjects batch.length
    batchesDispatched := wrappingAdd s.stats.batchesDispatched 1 } }

def drainPanicked (s : Shared) (batch : List String) : Shared :=
  let dropped := batch.length + (s.state.outbox.map List.length).sum + s.state.subjects.size
  { s with
    state := { s.state with subjects := ∅, heap := [], outbox := [] }
    stats := { s.stats with
      activeSubjects := 0
      pendingSubjects := 0
      panicDroppedTotal := dropped } }

end Shared

/-- Where the dispatcher stands; after a panic it sets the flag and then drops what is left. -/
inductive Dispatcher where
  | ready
  | delivering (batch : List String)
  | panicked (batch : List String)
  | flagged (batch : List String)
  | exited

namespace Dispatcher

def beingDelivered : Dispatcher → List String
  | delivering batch => batch
  | _ => []

def inFlight : Dispatcher → List String
  | delivering batch => batch
  | panicked batch => batch
  | flagged batch => batch
  | _ => []

end Dispatcher

structure System where
  shared : Shared
  dispatcher : Dispatcher
  admitted : List String
  delivered : List String
  dropped : List String

inductive Op where
  | trySchedule (uri : String) (now : Nat) (staleRead : Bool)
  | intake (now : Nat)
  | popBatch
  | sinkReturns
  | sinkPanics
  | flagPanic
  | drainPanicked
  | signalShutdown

namespace System

def start (intervalMs : Nat) (operational : Bool) : System :=
  ⟨withInterval intervalMs operational, .ready, [], [], []⟩

def popBatch (t : System) : System :=
  match t.dispatcher with
  | .ready =>
    match t.shared.state.outbox with
    | [] => if t.shared.state.shuttingDown then { t with dispatcher := .exited } else t
    | batch :: rest =>
      { t with
        shared := { t.shared with state := { t.shared.state with outbox := rest } }
        dispatcher := .delivering batch }
  | _ => t

def sinkReturns (t : System) : System :=
  match t.dispatcher with
  | .delivering batch =>
    { t with
      shared := t.shared.release batch
      dispatcher := .ready
      delivered := t.delivered ++ batch }
  | _ => t

def sinkPanics (t : System) : System :=
  match t.dispatcher with
  | .delivering batch =>
    { t with shared := t.shared.release batch, dispatcher := .panicked batch }
  | _ => t

def flagPanic (t : System) : System :=
  match t.dispatcher with
  | .panicked batch =>
    { t with shared := { t.shared with sinkPanic := true }, dispatcher := .flagged batch }
  | _ => t

def drainPanicked (t : System) : System :=
  match t.dispatcher with
  | .flagged batch =>
    { t with
      shared := t.shared.drainPanicked batch
      dispatcher := .exited
      dropped := batch ++ (t.shared.state.outbox.flatten ++ t.shared.state.subjects.keys) }
  | _ => t

def step (t : System) : Op → System
  | .trySchedule uri now staleRead =>
    let (admission, shared) := t.shared.trySchedule uri now staleRead
    { t with
      shared := shared
      admitted := if admission = .accepted then uri :: t.admitted else t.admitted }
  | .intake now => { t with shared := t.shared.intake now }
  | .popBatch => t.popBatch
  | .sinkReturns => t.sinkReturns
  | .sinkPanics => t.sinkPanics
  | .flagPanic => t.flagPanic
  | .drainPanicked => t.drainPanicked
  | .signalShutdown => { t with shared := t.shared.signalShutdown }

/-- What the counters and the containers say together. -/
structure Accounted (t : System) : Prop where
  active : t.shared.stats.activeSubjects =
    (t.shared.state.outbox.map List.length).sum + t.dispatcher.beingDelivered.length
  noUnderflow : t.dispatcher.beingDelivered.length ≤ t.shared.stats.activeSubjects
  pending : t.shared.stats.pendingSubjects = t.shared.state.subjects.size
  conserved : t.admitted.Perm (t.shared.state.subjects.keys ++ t.shared.state.outbox.flatten ++
    t.dispatcher.inFlight ++ t.delivered ++ t.dropped)
  counted : t.shared.stats.panicDroppedTotal = t.dropped.length

/-- The first shutdown signal finds nothing pending, and no registration takes a number that an
entry of its subject still carries: the counter would have to come round. -/
def Settled (t : System) : Op → Prop
  | .signalShutdown => t.shared.state.shuttingDown = true ∨ t.shared.state.subjects.size = 0
  | .trySchedule uri _ _ =>
    ∀ entry ∈ t.shared.state.heap, entry.uri = uri → entry.seq ≠ t.shared.freshSeq
  | _ => True

end System

def LiveOnce (subjects : Subjects) (heap : List HeapEntry) : Prop :=
  ((heap.filter (live subjects)).map HeapEntry.uri).Nodup

theorem live_iff (subjects : Subjects) (entry : HeapEntry) : live subjects entry = true ↔
      ∃ deadlines, subjects[entry.uri]? = some deadlines ∧ deadlines.seq = entry.seq := by
  unfold live
  cases subjects[entry.uri]? with
  | none => simp
  | some deadlines => simp

variable {subjects : Subjects} {heap : List HeapEntry}

theorem LiveOnce.sublist {fewer : List HeapEntry} (once : LiveOnce subjects heap)
    (sub : List.Sublist fewer heap) : LiveOnce subjects fewer :=
  List.Nodup.sublist ((sub.filter _).map _) once

theorem LiveOnce.perm {other : List HeapEntry} (once : LiveOnce subjects heap)
    (perm : heap.Perm other) : LiveOnce subjects other :=
  ((perm.filter _).map _).nodup_iff.mp once

theorem LiveOnce.mono {fewer : Subjects} (once : LiveOnce subjects heap)
    (implies : ∀ entry, live fewer entry = true → live subjects entry = true) : LiveOnce fewer heap :=
  List.Nodup.sublist ((monotone_filter_right heap implies).map _) once

theorem LiveOnce.register (once : LiveOnce subjects heap) (uri : String)
    (deadlines : SubjectDeadlines) (deadline : Nat)
    (fresh : ∀ entry ∈ heap, entry.uri = uri → entry.seq ≠ deadlines.seq) :
    LiveOnce (subjects.insert uri deadlines) (pushHeapEntry heap ⟨deadline, deadlines.seq, uri⟩) := by
  have pushed := perm_orderedInsert Before ⟨deadline, deadlines.seq, uri⟩ heap
  refine LiveOnce.perm ?_ pushed.symm
  have kept : ∀ entry ∈ heap, live (subjects.insert uri deadlines) entry = true →
      entry.uri ≠ uri ∧ live subjects entry = true := by
    intro entry member alive
    obtain ⟨found, registered, same⟩ := (live_iff _ _).mp alive
    rw [getElem?_insert] at registered
    by_cases here : uri = entry.uri
    · rw [if_pos here] at registered
      cases registered
      exact absurd same.symm (fresh entry member here.symm)
    · rw [if_neg here] at registered
      exact ⟨Ne.symm here, (live_iff _ _).mpr ⟨found, registered, same⟩⟩
  have head : live (subjects.insert uri deadlines) ⟨deadline, deadlines.seq, uri⟩ = true :=
    (live_iff _ _).mpr ⟨deadlines, TreeMap.getElem?_insert_self, rfl⟩
  rw [LiveOnce, filter_cons_of_pos head, map_cons, nodup_cons]
  constructor
  · intro among
    obtain ⟨entry, member, same⟩ := mem_map.mp among
    obtain ⟨inside, alive⟩ := mem_filter.mp member
    exact (kept entry inside alive).1 same
  · have fewer : List.Sublist (heap.filter (live (subjects.insert uri deadlines)))
        (heap.filter (live subjects)) := by
      have both : heap.filter (live (subjects.insert uri deadlines)) =
          (heap.filter (live subjects)).filter (live (subjects.insert uri deadlines)) := by
        rw [filter_filter]
        refine filter_congr fun entry member => ?_
        cases alive : live (subjects.insert uri deadlines) entry with
        | false => rfl
        | true => rw [(kept entry member alive).2]; rfl
      rw [both]
      exact filter_sublist
    exact List.Nodup.sublist (fewer.map _) once

variable (subjects : Subjects)

theorem purge_heads_sublist (heap : List HeapEntry) : List.Sublist (purgeHeads subjects heap) heap := by
  induction heap with
  | nil => exact List.Sublist.refl _
  | cons entry rest ih =>
    unfold purgeHeads
    split
    · exact List.Sublist.refl _
    · exact ih.cons entry

theorem drain_due_sublist (now : Nat) (heap : List HeapEntry) :
    List.Sublist ((drainDue subjects now heap).1 ++ (drainDue subjects now heap).2) heap := by
  induction heap with
  | nil => exact List.Sublist.refl _
  | cons entry rest ih =>
    unfold drainDue
    split
    · split
      · exact List.Sublist.refl _
      · exact ih.cons_cons entry
    · exact ih.cons entry

theorem drain_due_live (now : Nat) (heap : List HeapEntry) :
    ∀ entry ∈ (drainDue subjects now heap).1, live subjects entry = true := by
  induction heap with
  | nil => exact fun entry member => nomatch member
  | cons head rest ih =>
    unfold drainDue
    split
    · next alive =>
        split
        · exact fun entry member => nomatch member
        intro entry member
        rcases mem_cons.mp member with rfl | earlier
        · exact alive
        · exact ih entry earlier
    · exact ih

theorem restore_all_perm (entries heap : List HeapEntry)
    (alive : ∀ entry ∈ entries, live subjects entry = true) :
    (entries.foldl (restore subjects) heap).Perm (entries ++ heap) := by
  induction entries generalizing heap with
  | nil => exact List.Perm.refl _
  | cons entry rest ih =>
    obtain ⟨deadlines, registered, same⟩ := (live_iff _ _).mp (alive entry mem_cons_self)
    have back : restore subjects heap entry = pushHeapEntry heap entry := by
      simp only [restore, registered, same]
    have pushed := perm_orderedInsert Before entry heap
    have others := ih (pushHeapEntry heap entry) fun other member =>
      alive other (mem_cons_of_mem entry member)
    rw [foldl_cons, back]
    exact others.trans ((pushed.append_left rest).trans perm_middle)

variable {state : IntakeState} (s : Shared) (uri : String) (now : Nat)

theorem drained_live : ∀ entry ∈ (drainDue state.subjects now state.heap).1.insertionSort DueBefore,
      live state.subjects entry = true := fun entry member =>
  drain_due_live state.subjects now state.heap entry ((perm_insertionSort DueBefore _).mem_iff.mp member)

section
variable (once : LiveOnce state.subjects state.heap)
include state now once

theorem drained_once :
    LiveOnce state.subjects ((drainDue state.subjects now state.heap).1.insertionSort DueBefore ++
        (drainDue state.subjects now state.heap).2) :=
  (once.sublist (drain_due_sublist state.subjects now state.heap)).perm
    ((perm_insertionSort DueBefore _).symm.append_right _)

theorem drained_distinct :
    (((drainDue state.subjects now state.heap).1.insertionSort DueBefore).map HeapEntry.uri).Nodup := by
  have whole := (drained_once now once).sublist (sublist_append_left _ _)
  rw [LiveOnce, filter_eq_self.mpr (drained_live now)] at whole
  exact whole

end

/-- What is not taken goes back under the numbers it had. -/
theorem taken_heap_perm (limit : Nat) (once : LiveOnce state.subjects state.heap) :
    (state.takeDueUpTo now limit).2.heap.Perm
      (((drainDue state.subjects now state.heap).1.insertionSort DueBefore).drop limit ++
        (drainDue state.subjects now state.heap).2) := by
  have distinct := drained_distinct now once
  have alive := @drained_live state now
  unfold IntakeState.takeDueUpTo
  simp only
  generalize (drainDue state.subjects now state.heap).2 = rest at *
  generalize (drainDue state.subjects now state.heap).1.insertionSort DueBefore = ordered at *
  refine restore_all_perm _ (ordered.drop limit) rest fun entry member => ?_
  obtain ⟨deadlines, registered, same⟩ :=
    (live_iff _ _).mp (alive entry (mem_of_mem_drop member))
  refine (live_iff _ _).mpr ⟨deadlines, ?_, same⟩
  rw [getElem?_erase_all, if_neg, registered]
  intro among
  have split : (ordered.take limit).map HeapEntry.uri ++ (ordered.drop limit).map HeapEntry.uri =
      ordered.map HeapEntry.uri := by
    rw [← map_append, take_append_drop]
  rw [← split] at distinct
  exact (nodup_append.mp distinct).2.2 _ among _ (mem_map_of_mem member) rfl

theorem take_due_spec (state : IntakeState) (now limit : Nat) (once : LiveOnce state.subjects state.heap) :
    let taken := state.takeDueUpTo now limit
    taken.1.length ≤ limit ∧ state.subjects.keys.Perm (taken.1 ++ taken.2.subjects.keys) ∧
      LiveOnce taken.2.subjects taken.2.heap ∧ taken.2.outbox = state.outbox := by
  have alive := @drained_live state now
  have gathered := drained_once now once
  have distinct := drained_distinct now once
  have restored := taken_heap_perm now limit once
  unfold IntakeState.takeDueUpTo at *
  simp only at *
  generalize (drainDue state.subjects now state.heap).2 = rest at *
  generalize (drainDue state.subjects now state.heap).1.insertionSort DueBefore = ordered at *
  have outDistinct : ((ordered.take limit).map HeapEntry.uri).Nodup :=
    distinct.sublist ((take_sublist limit ordered).map _)
  have present : ∀ uri ∈ (ordered.take limit).map HeapEntry.uri, uri ∈ state.subjects := by
    intro uri among
    obtain ⟨entry, member, rfl⟩ := mem_map.mp among
    obtain ⟨deadlines, registered, _⟩ :=
      (live_iff _ _).mp (alive entry (mem_of_mem_take member))
    exact TreeMap.mem_iff_isSome_getElem?.mpr (by rw [registered]; rfl)
  refine ⟨?_, erase_all_perm state.subjects _ outDistinct present, ?_, trivial⟩
  · rw [length_map]
    exact length_take_le limit ordered
  · refine LiveOnce.perm (LiveOnce.mono (gathered.sublist ?_) ?_) restored.symm
    · exact (drop_sublist limit ordered).append_right rest
    · intro entry left
      obtain ⟨deadlines, registered, same⟩ := (live_iff _ _).mp left
      rw [getElem?_erase_all] at registered
      split at registered
      · cases registered
      · exact (live_iff _ _).mpr ⟨deadlines, registered, same⟩

structure SameQueue (s u : Shared) : Prop where
  outbox : u.state.outbox = s.state.outbox
  active : u.stats.activeSubjects = s.stats.activeSubjects
  dropped : u.stats.panicDroppedTotal = s.stats.panicDroppedTotal

inductive Scheduled (s : Shared) (uri : String) : WatcherAdmission × Shared → Prop where
  | refused (admission : WatcherAdmission) (u : Shared) (notAccepted : admission ≠ .accepted)
      (same : SameQueue s u) (subjects : u.state.subjects = s.state.subjects)
      (heap : List.Sublist u.state.heap s.state.heap)
      (pending : u.stats.pendingSubjects = s.stats.pendingSubjects) :
      Scheduled s uri (admission, u)
  | registered (admission : WatcherAdmission) (u : Shared) (heap : List HeapEntry)
      (deadline : Nat) (deadlines : SubjectDeadlines) (same : SameQueue s u)
      (older : List.Sublist heap s.state.heap) (numbered : deadlines.seq = s.freshSeq)
      (subjects : u.state.subjects = s.state.subjects.insert uri deadlines)
      (pushed : u.state.heap = pushHeapEntry heap ⟨deadline, deadlines.seq, uri⟩)
      (admits : (admission = .accepted ∧ uri ∉ s.state.subjects ∧
          u.stats.pendingSubjects = u.state.subjects.size) ∨
        (admission ≠ .accepted ∧ uri ∈ s.state.subjects ∧
          u.stats.pendingSubjects = s.stats.pendingSubjects)) :
      Scheduled s uri (admission, u)

theorem register_effect (heap : List HeapEntry) (uri : String) (now : Nat)
    (older : List.Sublist heap s.state.heap) :
    Scheduled s uri ({ s with state := { s.state with heap := heap } }.register uri now) := by
  unfold Shared.register
  simp only
  cases found : s.state.subjects[uri]? with
  | some deadlines =>
    have present : uri ∈ s.state.subjects :=
      TreeMap.mem_iff_isSome_getElem?.mpr (by rw [found]; rfl)
    exact .registered .coalesced _ heap _ _ ⟨rfl, rfl, rfl⟩ older rfl rfl rfl
      (.inr ⟨by decide, present, rfl⟩)
  | none =>
    have absent : uri ∉ s.state.subjects := fun present => by
      have filled := TreeMap.mem_iff_isSome_getElem?.mp present
      rw [found] at filled
      cases filled
    by_cases full : maxPendingSubjects ≤ s.state.subjects.size
    · simp only [if_pos full]
      exact .refused .overflowed _ (by decide) ⟨rfl, rfl, rfl⟩ rfl older rfl
    · simp only [if_neg full]
      exact .registered .accepted _ heap _ _ ⟨rfl, rfl, rfl⟩ older rfl rfl rfl (.inl ⟨rfl, absent, rfl⟩)

theorem try_schedule_effect (staleRead : Bool) : Scheduled s uri (s.trySchedule uri now staleRead) := by
  have whole := List.Sublist.refl s.state.heap
  unfold Shared.trySchedule
  by_cases dead : (!s.operational || (s.sinkPanic && !staleRead)) = true
  · rw [if_pos dead]
    exact .refused .unavailable _ (by decide) ⟨rfl, rfl, rfl⟩ rfl whole rfl
  rw [if_neg dead]
  by_cases closing : s.state.shuttingDown = true
  · rw [if_pos closing]
    exact .refused .shuttingDown _ (by decide) ⟨rfl, rfl, rfl⟩ rfl whole rfl
  rw [if_neg closing]
  have purged : List.Sublist (s.state.heap.filter (live s.state.subjects)) s.state.heap :=
    filter_sublist
  by_cases room : s.state.heap.length < maxHeapEntries
  · rw [if_pos room]
    exact register_effect s s.state.heap uri now whole
  rw [if_neg room]
  by_cases freed : (s.state.purgeStaleEntries).heap.length < maxHeapEntries
  · rw [if_pos freed]
    exact register_effect s _ uri now purged
  · rw [if_neg freed]
    exact .refused .overflowed _ (by decide) ⟨rfl, rfl, rfl⟩ rfl purged rfl

inductive Intaken (s : Shared) : Shared → Prop where
  | idle (u : Shared) (same : SameQueue s u) (once : LiveOnce u.state.subjects u.state.heap)
      (keys : s.state.subjects.keys.Perm u.state.subjects.keys)
      (pending : u.stats.pendingSubjects = s.stats.pendingSubjects) : Intaken s u
  | handedOff (u : Shared) (due : List String) (short : due.length ≤ maxBatchSubjects)
      (room : s.state.outbox.length < maxOutboxBatches)
      (once : LiveOnce u.state.subjects u.state.heap)
      (keys : s.state.subjects.keys.Perm (due ++ u.state.subjects.keys))
      (outbox : u.state.outbox = s.state.outbox ++ [due])
      (active : u.stats.activeSubjects = wrappingAdd s.stats.activeSubjects due.length)
      (pending : u.stats.pendingSubjects = u.state.subjects.size)
      (dropped : u.stats.panicDroppedTotal = s.stats.panicDroppedTotal) : Intaken s u

theorem intake_effect (once : LiveOnce s.state.subjects s.state.heap) : Intaken s (s.intake now) := by
  have untouched : Intaken s s := .idle s ⟨rfl, rfl, rfl⟩ once (List.Perm.refl _) rfl
  have purged := once.sublist (purge_heads_sublist s.state.subjects s.state.heap)
  unfold Shared.intake
  by_cases closing : s.state.shuttingDown = true
  · rw [if_pos closing]
    exact untouched
  by_cases panicked : s.sinkPanic = true
  · rw [if_neg closing, if_pos panicked]
    exact untouched
  rw [if_neg closing, if_neg panicked]
  generalize purgeHeads s.state.subjects s.state.heap = heap at *
  cases heap with
  | nil => exact .idle _ ⟨rfl, rfl, rfl⟩ purged (List.Perm.refl _) rfl
  | cons head rest =>
    simp only
    by_cases early : now < head.deadline
    · rw [if_pos early]
      exact .idle _ ⟨rfl, rfl, rfl⟩ purged (List.Perm.refl _) rfl
    by_cases full : maxOutboxBatches ≤ s.state.outbox.length
    · rw [if_neg early, if_pos full]
      exact .idle _ ⟨rfl, rfl, rfl⟩ purged (List.Perm.refl _) rfl
    rw [if_neg early, if_neg full]
    obtain ⟨short, keys, left, outbox⟩ :=
      take_due_spec { s.state with heap := head :: rest } now maxBatchSubjects purged
    generalize { s.state with heap := head :: rest }.takeDueUpTo now maxBatchSubjects = taken at *
    by_cases empty : taken.1.isEmpty = true
    · rw [if_pos empty]
      rw [List.isEmpty_iff.mp empty] at keys
      exact .idle _ ⟨outbox, rfl, rfl⟩ left keys rfl
    · rw [if_neg empty]
      exact .handedOff _ taken.1 short (Nat.lt_of_not_le full) left keys
        (congrArg (· ++ [taken.1]) outbox) rfl rfl rfl

namespace System

/-- The invariant of the runs whose steps are all settled. -/
structure Sound (t : System) : Prop where
  active : t.shared.stats.activeSubjects =
    (t.shared.state.outbox.map List.length).sum + t.dispatcher.beingDelivered.length
  pending : t.shared.stats.pendingSubjects = t.shared.state.subjects.size
  conserved : t.admitted.Perm (t.shared.state.subjects.keys ++ t.shared.state.outbox.flatten ++
    t.dispatcher.inFlight ++ t.delivered ++ t.dropped)
  counted : t.shared.stats.panicDroppedTotal = t.dropped.length
  once : LiveOnce t.shared.state.subjects t.shared.state.heap
  room : t.shared.state.outbox.length ≤ maxOutboxBatches
  short : ∀ batch ∈ t.shared.state.outbox, batch.length ≤ maxBatchSubjects
  shortBatch : t.dispatcher.beingDelivered.length ≤ maxBatchSubjects
  running : t.dispatcher ≠ .exited → t.dropped = []

theorem Sound.accounted {t : System} (ok : Sound t) : Accounted t :=
  ⟨ok.active, by rw [ok.active]; exact le_add_left _ _, ok.pending, ok.conserved, ok.counted⟩

theorem Sound.start (intervalMs : Nat) (operational : Bool) : Sound (start intervalMs operational) where
  active := rfl
  pending := rfl
  conserved := List.Perm.refl _
  counted := rfl
  once := nodup_nil
  room := zero_le _
  short := fun _ member => nomatch member
  shortBatch := zero_le _
  running := fun _ => rfl

theorem sum_le (batches : List (List String)) (bound : Nat)
    (short : ∀ batch ∈ batches, batch.length ≤ bound) :
    (batches.map List.length).sum ≤ batches.length * bound := by
  induction batches with
  | nil => exact zero_le _
  | cons batch rest ih =>
    have first := short batch mem_cons_self
    have others := ih fun other member => short other (mem_cons_of_mem batch member)
    rw [map_cons, sum_cons, length_cons, add_one_mul]
    omega

section
variable {t : System} (ok : Sound t)
include t ok

/-- The batches in the outbox and in delivery are far from wrapping the counter. -/
theorem Sound.active_small :
    t.shared.stats.activeSubjects ≤ maxOutboxBatches * maxBatchSubjects + maxBatchSubjects := by
  have queued := sum_le _ _ ok.short
  have batches := mul_le_mul_right maxBatchSubjects ok.room
  rw [ok.active]
  exact Nat.add_le_add (Nat.le_trans queued batches) ok.shortBatch

theorem Sound.active_below (more : Nat) (short : more ≤ maxBatchSubjects) :
    t.shared.stats.activeSubjects + more < 2 ^ 64 := by
  have small := Nat.add_le_add ok.active_small short
  exact Nat.lt_of_le_of_lt small (by decide)

theorem Sound.sameQueue {u : Shared} {admitted : List String} (same : SameQueue t.shared u)
    (pending : u.stats.pendingSubjects = u.state.subjects.size)
    (conserved : admitted.Perm (u.state.subjects.keys ++ t.shared.state.outbox.flatten ++
      t.dispatcher.inFlight ++ t.delivered ++ t.dropped)) (once : LiveOnce u.state.subjects u.state.heap) :
    Sound { t with shared := u, admitted := admitted } where
  active := by rw [same.active, same.outbox]; exact ok.active
  pending := pending
  conserved := by rw [same.outbox]; exact conserved
  counted := by rw [same.dropped]; exact ok.counted
  once := once
  room := by rw [same.outbox]; exact ok.room
  short := by rw [same.outbox]; exact ok.short
  shortBatch := ok.shortBatch
  running := ok.running

theorem Sound.schedule (uri : String)
    (fresh : ∀ entry ∈ t.shared.state.heap, entry.uri = uri → entry.seq ≠ t.shared.freshSeq)
    (result : WatcherAdmission × Shared) (effect : Scheduled t.shared uri result) :
    Sound { t with
      shared := result.2
      admitted := if result.1 = .accepted then uri :: t.admitted else t.admitted } := by
  cases effect with
  | refused admission u notAccepted same subjects heap pending =>
    rw [if_neg notAccepted]
    refine ok.sameQueue same ?_ ?_ ?_
    · rw [pending, subjects]
      exact ok.pending
    · rw [subjects]
      exact ok.conserved
    · rw [subjects]
      exact ok.once.sublist heap
  | registered admission u heap deadline deadlines same older numbered subjects pushed admits =>
    have once := (ok.once.sublist older).register uri deadlines deadline fun entry member here =>
      numbered ▸ fresh entry (older.subset member) here
    rw [← subjects, ← pushed] at once
    refine ok.sameQueue same ?_ (perm_iff_count.mpr fun subject => ?_) once
    · rcases admits with ⟨_, _, stored⟩ | ⟨_, present, kept⟩
      · exact stored
      · rw [kept, subjects, size_insert_present _ _ _ present]
        exact ok.pending
    · have whole := ok.conserved.count_eq subject
      rcases admits with ⟨accepted, absent, _⟩ | ⟨coalesced, present, _⟩
      · have added := keys_insert_perm t.shared.state.subjects uri deadlines absent
        rw [← subjects] at added
        have counted := added.count_eq subject
        simp only [accepted, if_true, count_append, count_cons] at *
        omega
      · have kept := keys_insert_present_perm t.shared.state.subjects uri deadlines present
        rw [← subjects] at kept
        have counted := kept.count_eq subject
        simp only [if_neg coalesced, count_append] at *
        omega

theorem Sound.intake (u : Shared) (effect : Intaken t.shared u) : Sound { t with shared := u } := by
  cases effect with
  | idle same once keys pending =>
    refine ok.sameQueue same ?_ (perm_iff_count.mpr fun subject => ?_) once
    · rw [pending, ok.pending, ← TreeMap.length_keys, keys.length_eq, TreeMap.length_keys]
    · have whole := ok.conserved.count_eq subject
      have kept := keys.count_eq subject
      simp only [count_append] at *
      omega
  | handedOff due short room once keys outbox active pending dropped =>
    constructor
    case active =>
        simp only [active, outbox, map_append, sum_append, map_cons, map_nil, sum_cons, sum_nil]
        rw [wrapping_add_exact _ _ (ok.active_below _ short), ok.active]
        omega
    case pending => exact pending
    case conserved =>
        refine perm_iff_count.mpr fun subject => ?_
        have whole := ok.conserved.count_eq subject
        have moved := keys.count_eq subject
        simp only [outbox, flatten_append, flatten_singleton, count_append] at *
        omega
    case counted => rw [dropped]; exact ok.counted
    case once => exact once
    case room =>
        rw [outbox, length_append]
        exact room
    case short =>
        rw [outbox]
        intro batch member
        rcases mem_append.mp member with old | new
        · exact ok.short batch old
        · rw [mem_singleton.mp new]
          exact short
    case shortBatch => exact ok.shortBatch
    case running => exact ok.running

theorem Sound.popBatch : Sound t.popBatch := by
  unfold System.popBatch
  cases standing : t.dispatcher with
  | ready =>
    have empty := ok.running (by rw [standing]; exact fun same => nomatch same)
    cases queued : t.shared.state.outbox with
    | nil =>
      by_cases closing : t.shared.state.shuttingDown = true
      · simp only [if_pos closing]
        have active := ok.active
        have conserved := ok.conserved
        rw [standing] at active conserved
        exact ⟨active, ok.pending, conserved, ok.counted, ok.once, ok.room, ok.short,
          zero_le _, fun _ => empty⟩
      · simp only [if_neg closing]
        exact ok
    | cons batch rest =>
      have active := ok.active
      have room := ok.room
      have short := ok.short
      rw [queued] at active room short
      rw [standing] at active
      constructor
      case active =>
          simp only [active, map_cons, sum_cons, Dispatcher.beingDelivered, length_nil]
          omega
      case pending => exact ok.pending
      case conserved =>
          refine perm_iff_count.mpr fun subject => ?_
          have whole := ok.conserved.count_eq subject
          simp only [standing, queued, Dispatcher.inFlight, flatten_cons, count_append, count_nil] at *
          omega
      case counted => exact ok.counted
      case once => exact ok.once
      case room => exact le_of_succ_le room
      case short => exact fun other member => short other (mem_cons_of_mem batch member)
      case shortBatch => exact short batch mem_cons_self
      case running => exact fun _ => empty
  | delivering batch => exact ok
  | panicked batch => exact ok
  | flagged batch => exact ok
  | exited => exact ok

/-- The callback is done with its batch: its subjects are delivered or still in flight. -/
theorem Sound.release (batch : List String)
    (standing : t.dispatcher = .delivering batch) (next : Dispatcher) (delivered : List String)
    (idle : next.beingDelivered = []) (kept : (next.inFlight ++ delivered).Perm (batch ++ t.delivered)) :
    Sound { t with
      shared := t.shared.release batch, dispatcher := next, delivered := delivered } := by
  have active := ok.active
  rw [standing] at active
  simp only [Dispatcher.beingDelivered] at active
  constructor
  case active =>
      have below : batch.length ≤ t.shared.stats.activeSubjects := by
        rw [active]
        exact le_add_left _ _
      have small := ok.active_below 0 (zero_le _)
      simp only [Shared.release, idle, length_nil]
      rw [wrapping_sub_exact _ _ below small, active, Nat.add_sub_cancel, Nat.add_zero]
  case pending =>
      simp only [Shared.release]
      exact ok.pending
  case conserved =>
      refine perm_iff_count.mpr fun subject => ?_
      have whole := ok.conserved.count_eq subject
      have moved := kept.count_eq subject
      simp only [standing, Shared.release, Dispatcher.inFlight, count_append] at *
      omega
  case counted =>
      simp only [Shared.release]
      exact ok.counted
  case once => exact ok.once
  case room => exact ok.room
  case short => exact ok.short
  case shortBatch => rw [idle]; exact zero_le _
  case running => exact fun _ => ok.running (by rw [standing]; exact fun same => nomatch same)

theorem Sound.sinkReturns : Sound t.sinkReturns := by
  unfold System.sinkReturns
  split
  next batch standing =>
      have recorded : (t.delivered ++ batch).Perm (batch ++ t.delivered) := perm_append_comm
      exact ok.release batch standing .ready (t.delivered ++ batch) rfl recorded
  next => exact ok

theorem Sound.sinkPanics : Sound t.sinkPanics := by
  unfold System.sinkPanics
  split
  next batch standing =>
      exact ok.release batch standing (.panicked batch) t.delivered rfl (List.Perm.refl _)
  next => exact ok

theorem Sound.flagPanic : Sound t.flagPanic := by
  unfold System.flagPanic
  split
  next batch standing =>
      have active := ok.active
      have conserved := ok.conserved
      have running := ok.running
      rw [standing] at active conserved running
      exact ⟨active, ok.pending, conserved, ok.counted, ok.once, ok.room, ok.short, zero_le _,
        fun _ => running fun same => nomatch same⟩
  next => exact ok

theorem Sound.drainPanicked : Sound t.drainPanicked := by
  unfold System.drainPanicked
  split
  next batch standing =>
      have none := ok.running (by rw [standing]; exact fun same => nomatch same)
      constructor
      case active => rfl
      case pending => rfl
      case conserved =>
          refine perm_iff_count.mpr fun subject => ?_
          have whole := ok.conserved.count_eq subject
          have noKeys : (∅ : Subjects).keys = [] := rfl
          simp only [standing, none, Shared.drainPanicked, Dispatcher.inFlight, noKeys,
            flatten_nil, count_append, count_nil] at *
          omega
      case counted =>
          simp only [Shared.drainPanicked, length_append, length_flatten, TreeMap.length_keys]
          omega
      case once => exact nodup_nil
      case room => exact zero_le _
      case short => exact fun _ member => nomatch member
      case shortBatch => exact zero_le _
      case running => exact fun alive => absurd rfl alive
  next => exact ok

theorem Sound.signalShutdown
    (settled : t.shared.state.shuttingDown = true ∨ t.shared.state.subjects.size = 0) :
    Sound { t with shared := t.shared.signalShutdown } := by
  unfold Shared.signalShutdown
  by_cases closing : t.shared.state.shuttingDown = true
  · rw [if_pos closing]
    exact ok
  have nothing := settled.resolve_left closing
  have noKeys : t.shared.state.subjects.keys = [] :=
    length_eq_zero_iff.mp (TreeMap.length_keys.trans nothing)
  have conserved := ok.conserved
  have noChunks : ([] : List String).toChunks maxBatchSubjects = [] := rfl
  rw [noKeys] at conserved
  rw [if_neg closing]
  simp only [noKeys, noChunks, append_nil]
  exact ⟨ok.active, rfl, conserved, ok.counted, nodup_nil, ok.room, ok.short, ok.shortBatch, ok.running⟩

theorem Sound.step (op : Op) (settled : Settled t op) : Sound (step t op) := by
  cases op with
  | trySchedule uri now staleRead =>
    exact ok.schedule uri settled _ (try_schedule_effect t.shared uri now staleRead)
  | intake now => exact ok.intake _ (intake_effect t.shared now ok.once)
  | popBatch => exact ok.popBatch
  | sinkReturns => exact ok.sinkReturns
  | sinkPanics => exact ok.sinkPanics
  | flagPanic => exact ok.flagPanic
  | drainPanicked => exact ok.drainPanicked
  | signalShutdown => exact ok.signalShutdown settled

end

/-- Any interleaving whose shutdown signal comes when nothing is pending. -/
theorem settled_interleaving_accounted (intervalMs : Nat) (operational : Bool) (ops : List Op)
    (settled : StepsMeet step Settled (start intervalMs operational) ops) :
    Along step Accounted (start intervalMs operational) ops := by
  have sound : Along step Sound (start intervalMs operational) ops :=
    along_of_steps step Sound Settled (fun t op ok => ok.step op) _ ops (Sound.start _ _) settled
  exact along_mono step (fun t ok => ok.accounted) _ ops sound

def panicSession : List Op :=
  [.trySchedule "a.pm" 0 false, .intake 500, .popBatch, .sinkReturns,
    .trySchedule "b.pm" 600 false, .intake 1100, .popBatch, .sinkPanics, .flagPanic,
    .drainPanicked, .signalShutdown]

theorem panic_session_accounted :
    StepsMeet step Settled (start 500 true) panicSession ∧
      Along step Accounted (start 500 true) panicSession := by
  have empty : (run step (start 500 true) (panicSession.take 4)).shared.state.heap = [] := by decide
  have settled : StepsMeet step Settled (start 500 true) panicSession := by
    refine ⟨?_, trivial, trivial, trivial, ?_, trivial, trivial, trivial, trivial, trivial, ?_,
      trivial⟩
    · exact fun entry member => nomatch member
    · intro entry member
      have nowhere : entry ∈ ([] : List HeapEntry) := empty ▸ member
      cases nowhere
    · exact .inr rfl
  exact ⟨settled, settled_interleaving_accounted 500 true panicSession settled⟩

def pendingAtShutdown : List Op :=
  [.trySchedule "a.pm" 0 false, .signalShutdown, .popBatch, .sinkReturns]

theorem shutdown_flush_not_accounted :
    ¬ Along step Accounted (start 500 true) pendingAtShutdown := by
  rintro ⟨_, _, flushed, _⟩
  exact absurd flushed.active (by decide)

example : (run step (start 500 true) pendingAtShutdown).shared.stats.activeSubjects =
    2 ^ 64 - 1 := by decide

end System

end PerlLsp.WatcherDebounce
