import PerlLsp.WatcherDebounce

/-! What the coalescer of runtime/file_watcher_debounce.rs owes each pending subject: one live heap
entry at its deadline, a batch of the first due subjects by deadline and name, and nothing that
depends on the order of the schedules of one instant. The heap only tells subjects apart by sequence
numbers, so all of it stands as long as no registration takes a number that an entry of its subject
still carries. -/
namespace PerlLsp.WatcherDebounce
open List hiding getElem?_insert
open Std Runs Tables Nat Bool

instance : Std.Total HeapEntry.Before where
  total left right := by
    rcases Nat.lt_trichotomy left.deadline right.deadline with less | same | more
    · exact .inl (.inl less)
    · rcases Nat.lt_trichotomy left.seq right.seq with less | alike | more
      · exact .inl (.inr ⟨same, .inl less⟩)
      · rcases String.le_total left.uri right.uri with first | second
        · exact .inl (.inr ⟨same, .inr ⟨alike, first⟩⟩)
        · exact .inr (.inr ⟨same.symm, .inr ⟨alike.symm, second⟩⟩)
      · exact .inr (.inr ⟨same.symm, .inl more⟩)
    · exact .inr (.inl more)

instance : IsTrans HeapEntry HeapEntry.Before where
  trans left middle right first second := by
    rcases first with less | ⟨same, less | ⟨alike, uris⟩⟩
    · rcases second with more | ⟨equal, -⟩
      · exact .inl (Nat.lt_trans less more)
      · exact .inl (equal ▸ less)
    · rcases second with more | ⟨equal, more | ⟨also, -⟩⟩
      · exact .inl (same ▸ more)
      · exact .inr ⟨same.trans equal, .inl (Nat.lt_trans less more)⟩
      · exact .inr ⟨same.trans equal, .inl (also ▸ less)⟩
    · rcases second with more | ⟨equal, more | ⟨also, later⟩⟩
      · exact .inl (same ▸ more)
      · exact .inr ⟨same.trans equal, .inl (alike ▸ more)⟩
      · exact .inr ⟨same.trans equal, .inr ⟨alike.trans also, String.le_trans uris later⟩⟩

def DueOrder (left right : Nat × String) : Prop :=
  left.1 < right.1 ∨ left.1 = right.1 ∧ left.2 ≤ right.2

instance : DecidableRel DueOrder := fun left right =>
  inferInstanceAs (Decidable (left.1 < right.1 ∨ _ ∧ _))

instance : Std.Total DueOrder where
  total left right := by
    rcases Nat.lt_trichotomy left.1 right.1 with less | same | more
    · exact .inl (.inl less)
    · rcases String.le_total left.2 right.2 with first | second
      · exact .inl (.inr ⟨same, first⟩)
      · exact .inr (.inr ⟨same.symm, second⟩)
    · exact .inr (.inl more)

instance : IsTrans (Nat × String) DueOrder where
  trans left middle right first second := by
    rcases first with less | ⟨same, uris⟩
    · rcases second with more | ⟨equal, -⟩
      · exact .inl (Nat.lt_trans less more)
      · exact .inl (equal ▸ less)
    · rcases second with more | ⟨equal, later⟩
      · exact .inl (same ▸ more)
      · exact .inr ⟨same.trans equal, String.le_trans uris later⟩

theorem due_order_antisymm {left right : Nat × String} (first : DueOrder left right)
    (second : DueOrder right left) : left = right := by
  rcases first with less | ⟨same, uris⟩
  · rcases second with more | ⟨equal, -⟩
    · exact absurd (Nat.lt_trans less more) (Nat.lt_irrefl _)
    · exact absurd (equal ▸ less) (Nat.lt_irrefl _)
  · rcases second with more | ⟨-, back⟩
    · exact absurd (same ▸ more) (Nat.lt_irrefl _)
    · exact Prod.ext same (String.le_antisymm uris back)

theorem due_sorted_eq {left right : List (Nat × String)} (same : left.Perm right) :
    left.insertionSort DueOrder = right.insertionSort DueOrder := by
  have perm := (perm_insertionSort DueOrder left).trans (same.trans (perm_insertionSort DueOrder right).symm)
  exact perm.eq_of_pairwise (fun _ _ _ _ => due_order_antisymm)
    (pairwise_insertionSort DueOrder left) (pairwise_insertionSort DueOrder right)

def SubjectDeadlines.effective (deadlines : SubjectDeadlines) : Nat :=
  min deadlines.quietDeadline deadlines.maxDeadline

def entryOf (uri : String) (deadlines : SubjectDeadlines) : HeapEntry :=
  ⟨deadlines.effective, deadlines.seq, uri⟩

structure Armed (state : IntakeState) : Prop where
  sorted : state.heap.Pairwise HeapEntry.Before
  once : LiveOnce state.subjects state.heap
  armed : ∀ uri deadlines, state.subjects[uri]? = some deadlines →
    entryOf uri deadlines ∈ state.heap
  capped : state.heap.length ≤ maxHeapEntries

variable (count : Nat) {entry : HeapEntry} {deadlines : SubjectDeadlines}

theorem entry_live {subjects : Subjects} {uri : String}
    (registered : subjects[uri]? = some deadlines) : live subjects (entryOf uri deadlines) = true :=
  (live_iff _ _).mpr ⟨deadlines, registered, rfl⟩

theorem LiveOnce.unique {subjects : Subjects} {heap : List HeapEntry}
    (once : LiveOnce subjects heap) {left right : HeapEntry} (leftIn : left ∈ heap)
    (leftLive : live subjects left = true) (rightIn : right ∈ heap)
    (rightLive : live subjects right = true) (same : left.uri = right.uri) : left = right :=
  inj_on_of_nodup_map once (mem_filter.mpr ⟨leftIn, leftLive⟩) (mem_filter.mpr ⟨rightIn, rightLive⟩) same

theorem Armed.live_entry {state : IntakeState} (ok : Armed state) (member : entry ∈ state.heap)
    (alive : live state.subjects entry = true) :
    ∃ deadlines, state.subjects[entry.uri]? = some deadlines ∧ entry = entryOf entry.uri deadlines := by
  obtain ⟨deadlines, registered, -⟩ := (live_iff _ _).mp alive
  exact ⟨deadlines, registered, ok.once.unique member alive (ok.armed _ _ registered)
    (entry_live registered) rfl⟩

theorem singleton_of_nodup {Item : Type*} {items : List Item} {item : Item} (distinct : items.Nodup)
    (among : item ∈ items) (only : ∀ other ∈ items, other = item) : items = [item] := by
  cases items with
  | nil => cases among
  | cons first rest =>
    obtain rfl := only first mem_cons_self
    cases rest with
    | nil => rfl
    | cons second others =>
      obtain rfl := only second (mem_cons_of_mem _ mem_cons_self)
      exact absurd mem_cons_self (nodup_cons.mp distinct).1

/-- Exactly one live entry for each pending subject, at its deadline. -/
theorem Armed.one_live {state : IntakeState} (ok : Armed state) {uri : String}
    (registered : state.subjects[uri]? = some deadlines) :
    state.heap.filter (fun entry => live state.subjects entry && entry.uri == uri) =
      [entryOf uri deadlines] := by
  apply singleton_of_nodup
  · have distinct : (state.heap.filter (live state.subjects)).Nodup :=
      List.Nodup.of_map HeapEntry.uri ok.once
    have split : state.heap.filter (fun entry => live state.subjects entry && entry.uri == uri) =
        (state.heap.filter (live state.subjects)).filter (fun entry => entry.uri == uri) := by
      rw [filter_filter]
      exact filter_congr fun entry _ => Bool.and_comm _ _
    rw [split]
    exact distinct.filter _
  · refine mem_filter.mpr ⟨ok.armed uri deadlines registered, ?_⟩
    rw [entry_live registered]
    exact beq_self_eq_true uri
  · intro other member
    obtain ⟨inside, both⟩ := mem_filter.mp member
    obtain ⟨alive, here⟩ := (and_eq_true _ _).mp both
    exact ok.once.unique inside alive (ok.armed uri deadlines registered) (entry_live registered)
      (eq_of_beq here)

theorem Armed.fewer {state : IntakeState} (ok : Armed state) (heap : List HeapEntry)
    (sub : List.Sublist heap state.heap)
    (kept : ∀ entry ∈ state.heap, live state.subjects entry = true → entry ∈ heap) :
    Armed { state with heap := heap } where
  sorted := ok.sorted.sublist sub
  once := ok.once.sublist sub
  armed := fun uri deadlines registered =>
    kept _ (ok.armed uri deadlines registered) (entry_live registered)
  capped := Nat.le_trans sub.length_le ok.capped

variable {seq : Nat} (s : Shared) (subjects : Subjects) {stale : List HeapEntry}
  (now deadline : Nat) (heap : List HeapEntry)

theorem purge_heads_keeps (entry : HeapEntry) (member : entry ∈ heap)
    (alive : live subjects entry = true) : entry ∈ purgeHeads subjects heap := by
  induction heap with
  | nil => cases member
  | cons head rest ih =>
    rw [purgeHeads]
    split
    · exact member
    rename_i dead
    rcases mem_cons.mp member with rfl | later
    · exact absurd alive dead
    · exact ih later

theorem drain_due_keeps (entry : HeapEntry) (member : entry ∈ heap) (alive : live subjects entry = true) :
    entry ∈ (drainDue subjects now heap).1 ++ (drainDue subjects now heap).2 := by
  induction heap with
  | nil => cases member
  | cons head rest ih =>
    rw [drainDue]
    split
    · split
      · exact member
      · rcases mem_cons.mp member with rfl | later
        · exact mem_cons_self
        · exact mem_cons_of_mem _ (ih later)
    · next dead =>
        rcases mem_cons.mp member with rfl | later
        · exact absurd alive dead
        · exact ih later

/-- In heap order the loop meets every live entry that is due before it stops. -/
theorem drain_due_exact (sorted : heap.Pairwise HeapEntry.Before) : (drainDue subjects now heap).1 =
      heap.filter fun entry => live subjects entry && decide (entry.deadline ≤ now) := by
  induction heap with
  | nil => rfl
  | cons head rest ih =>
    obtain ⟨first, others⟩ := pairwise_cons.mp sorted
    rw [drainDue]
    split
    · next alive =>
        split
        · next early =>
            -- The head is not due yet, so nothing behind it is.
            symm
            apply filter_eq_nil_iff.mpr
            intro entry member both
            have due := of_decide_eq_true ((and_eq_true _ _).mp both).2
            rcases mem_cons.mp member with rfl | later
            · omega
            · have order := first entry later
              rw [HeapEntry.Before] at order
              omega
        · next due =>
            have taken : (live subjects head && decide (head.deadline ≤ now)) = true := by
              rw [alive, Bool.true_and]
              exact decide_eq_true (Nat.le_of_not_lt due)
            rw [filter_cons_of_pos (by exact taken)]
            exact congrArg (head :: ·) (ih others)
    · next dead =>
        have skipped : ¬ (live subjects head && decide (head.deadline ≤ now)) = true := by
          rw [eq_false_of_not_eq_true dead]
          exact Bool.false_ne_true
        rw [filter_cons_of_neg (by exact skipped)]
        exact ih others

def dueSubjects (subjects : Subjects) (now : Nat) : List (Nat × String) :=
  ((subjects.toList.map fun row => (row.2.effective, row.1)).filter
    fun due => decide (due.1 ≤ now)).insertionSort DueOrder

variable (rest : List HeapEntry) (uri : String)

theorem mem_due_subjects : (deadline, uri) ∈ dueSubjects subjects now ↔ deadline ≤ now ∧
      ∃ deadlines, subjects[uri]? = some deadlines ∧ deadlines.effective = deadline := by
  rw [dueSubjects, (perm_insertionSort DueOrder _).mem_iff, mem_filter, mem_map]
  constructor
  · rintro ⟨⟨row, member, same⟩, due⟩
    obtain ⟨rfl, rfl⟩ := Prod.mk.inj same
    exact ⟨of_decide_eq_true due, row.2, TreeMap.mem_toList_iff_getElem?_eq_some.mp member, rfl⟩
  · rintro ⟨due, deadlines, registered, rfl⟩
    exact ⟨⟨(uri, deadlines), TreeMap.mem_toList_iff_getElem?_eq_some.mpr registered, rfl⟩,
      decide_eq_true due⟩

theorem due_subjects_nodup : ((dueSubjects subjects now).map Prod.snd).Nodup := by
  have rows : (subjects.toList.map fun row => (row.2.effective, row.1)).map Prod.snd = subjects.keys := by
    rw [map_map]
    exact TreeMap.map_fst_toList_eq_keys
  have all : ((subjects.toList.map fun row => (row.2.effective, row.1)).map Prod.snd).Nodup := by
    rw [rows, ← TreeMap.map_fst_toList_eq_keys]
    exact keys_nodup subjects
  rw [dueSubjects, ((perm_insertionSort DueOrder _).map Prod.snd).nodup_iff]
  exact all.sublist (filter_sublist.map _)

def HeapEntry.due (entry : HeapEntry) : Nat × String := (entry.deadline, entry.uri)

/-- The entries drained stand for the due subjects. -/
theorem Armed.drained_perm {state : IntakeState} (ok : Armed state) (now : Nat) :
    ((drainDue state.subjects now state.heap).1.map HeapEntry.due).Perm
      ((state.subjects.toList.map fun row => (row.2.effective, row.1)).filter
        fun due => decide (due.1 ≤ now)) := by
  have spec (deadline : Nat) (uri : String) :=
    (perm_insertionSort DueOrder _).mem_iff.symm.trans (mem_due_subjects state.subjects now deadline uri)
  have distinct : ((state.subjects.toList.map fun row => (row.2.effective, row.1)).filter
      fun due => decide (due.1 ≤ now)).Nodup := by
    have whole := due_subjects_nodup state.subjects now
    rw [dueSubjects, ((perm_insertionSort DueOrder _).map Prod.snd).nodup_iff] at whole
    exact List.Nodup.of_map Prod.snd whole
  have drained := drain_due_exact state.subjects now state.heap ok.sorted
  have apart : ((drainDue state.subjects now state.heap).1.map HeapEntry.due).Nodup := by
    have fewer : List.Sublist (drainDue state.subjects now state.heap).1
        (state.heap.filter (live state.subjects)) := by
      rw [drained]
      exact monotone_filter_right _ fun entry both => ((and_eq_true _ _).mp both).1
    apply List.Nodup.of_map Prod.snd
    rw [map_map]
    exact List.Nodup.sublist (fewer.map HeapEntry.uri) ok.once
  apply (perm_ext_iff_of_nodup apart distinct).mpr
  rintro ⟨deadline, uri⟩
  rw [spec, drained, mem_map]
  constructor
  · rintro ⟨entry, member, same⟩
    obtain ⟨rfl, rfl⟩ := Prod.mk.inj same
    obtain ⟨inside, both⟩ := mem_filter.mp member
    obtain ⟨alive, due⟩ := (and_eq_true _ _).mp both
    obtain ⟨deadlines, registered, is⟩ := ok.live_entry inside alive
    exact ⟨of_decide_eq_true due, deadlines, registered, (congrArg HeapEntry.deadline is).symm⟩
  · rintro ⟨due, deadlines, registered, rfl⟩
    refine ⟨entryOf uri deadlines, mem_filter.mpr ⟨ok.armed uri deadlines registered, ?_⟩, rfl⟩
    rw [entry_live registered]
    exact decide_eq_true due

theorem drained_sorted (due : List HeapEntry) : (due.insertionSort HeapEntry.DueBefore).map HeapEntry.due =
      (due.map HeapEntry.due).insertionSort DueOrder :=
  map_insertionSort HeapEntry.DueBefore DueOrder HeapEntry.due due fun _ _ _ _ => Iff.rfl

open HeapEntry

theorem Armed.take_first {state : IntakeState} (ok : Armed state) (now limit : Nat) :
    (state.takeDueUpTo now limit).1 = ((dueSubjects state.subjects now).take limit).map Prod.snd := by
  have sorted := due_sorted_eq (ok.drained_perm now)
  rw [← drained_sorted] at sorted
  rw [dueSubjects, ← sorted, ← map_take, map_map]
  rfl

theorem taken_subjects (state : IntakeState) (now limit : Nat) (uri : String) :
    (state.takeDueUpTo now limit).2.subjects[uri]? =
      if uri ∈ (state.takeDueUpTo now limit).1 then none else state.subjects[uri]? :=
  getElem?_erase_all state.subjects (state.takeDueUpTo now limit).1 uri

theorem push_sorted {heap : List HeapEntry} (sorted : heap.Pairwise Before)
    (entry : HeapEntry) : (pushHeapEntry heap entry).Pairwise Before :=
  List.Pairwise.orderedInsert entry heap sorted

theorem restore_all_sorted (entries heap : List HeapEntry) (sorted : heap.Pairwise Before) :
    (entries.foldl (restore subjects) heap).Pairwise Before := by
  induction entries generalizing heap with
  | nil => exact sorted
  | cons entry rest ih =>
    apply ih
    rw [restore]
    split
    · exact push_sorted sorted _
    · exact sorted

theorem Armed.take {state : IntakeState} (ok : Armed state) (now limit : Nat) :
    Armed (state.takeDueUpTo now limit).2 := by
  have sub := drain_due_sublist state.subjects now state.heap
  have heap := taken_heap_perm now limit ok.once
  have ordered := perm_insertionSort DueBefore (drainDue state.subjects now state.heap).1
  constructor
  · apply restore_all_sorted
    exact ok.sorted.sublist ((sublist_append_right _ _).trans sub)
  · exact (take_due_spec state now limit ok.once).2.2.1
  · intro uri deadlines registered
    rw [taken_subjects] at registered
    split at registered
    · cases registered
    rename_i absent
    have drained := drain_due_keeps state.subjects now state.heap _
      (ok.armed uri deadlines registered) (entry_live registered)
    apply heap.mem_iff.mpr
    rcases mem_append.mp drained with due | later
    · have among := ordered.mem_iff.mpr due
      rw [← take_append_drop limit (insertionSort _ _)] at among
      rcases mem_append.mp among with taken | left
      · exact absurd (mem_map_of_mem taken) absent
      · exact mem_append_left _ left
    · exact mem_append_right _ later
  · have fewer := sub.length_le
    have whole := heap.length_eq
    have same := ordered.length_eq
    rw [length_append, length_drop] at whole
    rw [length_append] at fewer
    have cap := ok.capped
    omega

def WatcherAdmission.retained : WatcherAdmission → Bool
  | .accepted => true
  | .coalesced => true
  | .overflowed => false
  | .unavailable => false
  | .shuttingDown => false

/-- The deadlines a registration leaves: the latest one is that of the first admission. -/
def Shared.deadlinesAt (s : Shared) (uri : String) (now : Nat) : SubjectDeadlines where
  quietDeadline := saturatingAdd now s.intervalMs
  maxDeadline := (s.state.subjects[uri]?.map SubjectDeadlines.maxDeadline).getD
    (saturatingAdd now s.maxLatencyMs)
  seq := s.freshSeq

/-- What a schedule and a turn of the intake worker leave as it is. -/
structure SameCourse (s u : Shared) : Prop where
  sinkPanic : u.sinkPanic = s.sinkPanic
  intervalMs : u.intervalMs = s.intervalMs
  maxLatencyMs : u.maxLatencyMs = s.maxLatencyMs
  shuttingDown : u.state.shuttingDown = s.state.shuttingDown

theorem SameCourse.trans {s t u : Shared} (first : SameCourse s t) (second : SameCourse t u) :
    SameCourse s u :=
  ⟨second.sinkPanic.trans first.sinkPanic, second.intervalMs.trans first.intervalMs,
    second.maxLatencyMs.trans first.maxLatencyMs, second.shuttingDown.trans first.shuttingDown⟩

theorem SameCourse.symm {s t : Shared} (same : SameCourse s t) : SameCourse t s :=
  ⟨same.sinkPanic.symm, same.intervalMs.symm, same.maxLatencyMs.symm, same.shuttingDown.symm⟩

inductive Attempt (s : Shared) (uri : String) (now : Nat) : WatcherAdmission × Shared → Prop where
  | refused (admission : WatcherAdmission) (u : Shared) (lost : admission.retained = false)
      (course : SameCourse s u) (outbox : u.state.outbox = s.state.outbox)
      (subjects : u.state.subjects = s.state.subjects)
      (heap : u.state.heap = s.state.heap ∨
        u.state.heap = s.state.heap.filter (live s.state.subjects))
      (seq : u.state.nextSeq = s.state.nextSeq ∨ u.state.nextSeq = s.freshSeq) :
      Attempt s uri now (admission, u)
  | registered (admission : WatcherAdmission) (u : Shared) (heap : List HeapEntry)
      (kept : admission.retained = true)
      (first : admission = .accepted ↔ s.state.subjects[uri]? = none)
      (course : SameCourse s u) (outbox : u.state.outbox = s.state.outbox)
      (room : heap.length < maxHeapEntries)
      (older : heap = s.state.heap ∨ heap = s.state.heap.filter (live s.state.subjects))
      (subjects : u.state.subjects = s.state.subjects.insert uri (s.deadlinesAt uri now))
      (pushed : u.state.heap = pushHeapEntry heap (entryOf uri (s.deadlinesAt uri now)))
      (seq : u.state.nextSeq = s.freshSeq) : Attempt s uri now (admission, u)

theorem register_attempt (now : Nat) (room : heap.length < maxHeapEntries)
    (older : heap = s.state.heap ∨ heap = s.state.heap.filter (live s.state.subjects)) :
    Attempt s uri now ({ s with state := { s.state with heap := heap } }.register uri now) := by
  unfold Shared.register
  cases found : s.state.subjects[uri]? with
  | some deadlines =>
    have latest : s.deadlinesAt uri now =
        ⟨saturatingAdd now s.intervalMs, deadlines.maxDeadline, s.freshSeq⟩ := by
      rw [Shared.deadlinesAt, found]
      rfl
    refine .registered .coalesced _ heap rfl ?_ ⟨rfl, rfl, rfl, rfl⟩ rfl room older
      (by rw [latest]; rfl) (by rw [latest]; rfl) rfl
    rw [found]
    exact iff_of_false (by decide) (Option.some_ne_none deadlines)
  | none =>
    have latest : s.deadlinesAt uri now =
        ⟨saturatingAdd now s.intervalMs, saturatingAdd now s.maxLatencyMs, s.freshSeq⟩ := by
      rw [Shared.deadlinesAt, found]
      rfl
    by_cases full : maxPendingSubjects ≤ s.state.subjects.size
    · simp only [if_pos full]
      exact .refused .overflowed _ rfl ⟨rfl, rfl, rfl, rfl⟩ rfl rfl older (.inr rfl)
    · simp only [if_neg full]
      exact .registered .accepted _ heap rfl (iff_of_true rfl found) ⟨rfl, rfl, rfl, rfl⟩ rfl
        room older (by rw [latest]; rfl) (by rw [latest]; rfl) rfl

theorem try_schedule_attempt (now : Nat) (staleRead : Bool) :
    Attempt s uri now (s.trySchedule uri now staleRead) := by
  unfold Shared.trySchedule
  by_cases dead : (!s.operational || (s.sinkPanic && !staleRead)) = true
  · rw [if_pos dead]
    exact .refused .unavailable _ rfl ⟨rfl, rfl, rfl, rfl⟩ rfl rfl (.inl rfl) (.inl rfl)
  rw [if_neg dead]
  by_cases closing : s.state.shuttingDown = true
  · rw [if_pos closing]
    exact .refused .shuttingDown _ rfl ⟨rfl, rfl, rfl, rfl⟩ rfl rfl (.inl rfl) (.inl rfl)
  rw [if_neg closing]
  by_cases room : s.state.heap.length < maxHeapEntries
  · rw [if_pos room]
    exact register_attempt s s.state.heap uri now room (.inl rfl)
  rw [if_neg room]
  by_cases freed : (s.state.purgeStaleEntries).heap.length < maxHeapEntries
  · rw [if_pos freed]
    exact register_attempt s _ uri now freed (.inr rfl)
  · rw [if_neg freed]
    exact .refused .overflowed _ rfl ⟨rfl, rfl, rfl, rfl⟩ rfl rfl (.inr rfl) (.inl rfl)

theorem Armed.purged {state : IntakeState} (ok : Armed state) (heap : List HeapEntry)
    (older : heap = state.heap ∨ heap = state.heap.filter (live state.subjects)) :
    Armed { state with heap := heap } := by
  rcases older with rfl | rfl
  · exact ok
  · exact ok.fewer _ filter_sublist fun entry member alive => mem_filter.mpr ⟨member, alive⟩

/-- The new entry is the live one, those of other subjects stay. -/
theorem Armed.register {state : IntakeState} (ok : Armed state) (uri : String)
    (deadlines : SubjectDeadlines) (room : state.heap.length < maxHeapEntries)
    (fresh : ∀ entry ∈ state.heap, entry.uri = uri → entry.seq ≠ deadlines.seq) (next : IntakeState)
    (subjects : next.subjects = state.subjects.insert uri deadlines)
    (pushed : next.heap = pushHeapEntry state.heap (entryOf uri deadlines)) : Armed next := by
  have perm := perm_orderedInsert Before (entryOf uri deadlines) state.heap
  constructor
  · rw [pushed]
    exact push_sorted ok.sorted _
  · rw [subjects, pushed]
    exact ok.once.register uri deadlines deadlines.effective fresh
  · intro other found registered
    rw [pushed]
    apply perm.mem_iff.mpr
    rw [subjects, getElem?_insert] at registered
    split at registered
    · next same =>
        obtain rfl := Option.some.inj registered
        exact same ▸ mem_cons_self
    · exact mem_cons_of_mem _ (ok.armed other found registered)
  · rw [pushed, pushHeapEntry, perm.length_eq]
    exact room

theorem purge_heads_head (head : HeapEntry) (purged : purgeHeads subjects heap = head :: rest) :
    live subjects head = true := by
  induction heap with
  | nil => cases purged
  | cons first others ih =>
    rw [purgeHeads] at purged
    split at purged
    · next alive => exact (cons.inj purged).1 ▸ alive
    · exact ih purged

theorem Armed.none_due {state : IntakeState} (ok : Armed state) (now : Nat)
    (none : (drainDue state.subjects now state.heap).1 = []) : dueSubjects state.subjects now = [] := by
  have perm := ok.drained_perm now
  rw [none] at perm
  rw [dueSubjects, ← due_sorted_eq perm]
  rfl

def nextBatch (s : Shared) (now : Nat) : List String :=
  if s.state.shuttingDown = true ∨ s.sinkPanic = true ∨ maxOutboxBatches ≤ s.state.outbox.length then []
  else ((dueSubjects s.state.subjects now).take maxBatchSubjects).map Prod.snd

structure IntakeTurn (s : Shared) (now : Nat) (u : Shared) : Prop where
  armed : Armed u.state
  course : SameCourse s u
  subjects : ∀ uri, u.state.subjects[uri]? =
    if uri ∈ nextBatch s now then none else s.state.subjects[uri]?
  outbox : u.state.outbox = s.state.outbox ++ if nextBatch s now = [] then [] else [nextBatch s now]
  heap : ∀ entry ∈ u.state.heap, entry ∈ s.state.heap
  seq : u.state.nextSeq = s.state.nextSeq

theorem IntakeTurn.idle {s u : Shared} {now : Nat} (none : nextBatch s now = [])
    (armed : Armed u.state) (course : SameCourse s u) (subjects : u.state.subjects = s.state.subjects)
    (outbox : u.state.outbox = s.state.outbox) (heap : ∀ entry ∈ u.state.heap, entry ∈ s.state.heap)
    (seq : u.state.nextSeq = s.state.nextSeq) : IntakeTurn s now u where
  armed := armed
  course := course
  subjects := fun uri => by rw [none, if_neg not_mem_nil, subjects]
  outbox := by rw [none, if_pos rfl, append_nil, outbox]
  heap := heap
  seq := seq

theorem taken_members {state : IntakeState} (ok : Armed state) (now limit : Nat) :
    ∀ entry ∈ (state.takeDueUpTo now limit).2.heap, entry ∈ state.heap := by
  intro entry member
  have sub := drain_due_sublist state.subjects now state.heap
  have ordered := perm_insertionSort DueBefore (drainDue state.subjects now state.heap).1
  rcases mem_append.mp ((taken_heap_perm now limit ok.once).mem_iff.mp member) with due | later
  · exact sub.subset (mem_append_left _ (ordered.mem_iff.mp (mem_of_mem_drop due)))
  · exact sub.subset (mem_append_right _ later)

theorem intake_turn (ok : Armed s.state) (now : Nat) : IntakeTurn s now (s.intake now) := by
  have same : SameCourse s s := ⟨rfl, rfl, rfl, rfl⟩
  unfold Shared.intake
  by_cases closing : s.state.shuttingDown = true
  · rw [if_pos closing]
    exact .idle (if_pos (.inl closing)) ok same rfl rfl (fun _ member => member) rfl
  by_cases panicked : s.sinkPanic = true
  · rw [if_neg closing, if_pos panicked]
    exact .idle (if_pos (.inr (.inl panicked))) ok same rfl rfl (fun _ member => member) rfl
  rw [if_neg closing, if_neg panicked]
  have sub := purge_heads_sublist s.state.subjects s.state.heap
  have purged : Armed { s.state with heap := purgeHeads s.state.subjects s.state.heap } :=
    ok.fewer _ sub fun entry member alive =>
      purge_heads_keeps s.state.subjects s.state.heap entry member alive
  have headLive := purge_heads_head s.state.subjects s.state.heap
  have within : ∀ entry ∈ purgeHeads s.state.subjects s.state.heap, entry ∈ s.state.heap :=
    fun entry member => sub.subset member
  generalize purgeHeads s.state.subjects s.state.heap = heap at *
  have quiet (none : dueSubjects s.state.subjects now = []) : nextBatch s now = [] := by
    rw [nextBatch, none]
    split
    · rfl
    · rfl
  cases heap with
  | nil => exact .idle (quiet (purged.none_due now rfl)) purged ⟨rfl, rfl, rfl, rfl⟩ rfl rfl within rfl
  | cons head rest =>
    have alive := headLive rest head rfl
    simp only
    by_cases early : now < head.deadline
    · rw [if_pos early]
      have none : (drainDue s.state.subjects now (head :: rest)).1 = [] := by
        rw [drainDue, if_pos alive, if_pos early]
      exact .idle (quiet (purged.none_due now none)) purged ⟨rfl, rfl, rfl, rfl⟩ rfl rfl within rfl
    by_cases full : maxOutboxBatches ≤ s.state.outbox.length
    · rw [if_neg early, if_pos full]
      exact .idle (if_pos (.inr (.inr full))) purged ⟨rfl, rfl, rfl, rfl⟩ rfl rfl within rfl
    rw [if_neg early, if_neg full]
    have batch : nextBatch s now =
        ({ s.state with heap := head :: rest }.takeDueUpTo now maxBatchSubjects).1 := by
      rw [purged.take_first, nextBatch, if_neg]
      rintro (yes | yes | yes)
      · exact closing yes
      · exact panicked yes
      · exact full yes
    have armed := purged.take now maxBatchSubjects
    have subjects := taken_subjects { s.state with heap := head :: rest } now maxBatchSubjects
    have members := taken_members purged now maxBatchSubjects
    obtain ⟨-, -, -, outbox⟩ :=
      take_due_spec { s.state with heap := head :: rest } now maxBatchSubjects purged.once
    have closed : ({ s.state with heap := head :: rest }.takeDueUpTo now maxBatchSubjects).2.shuttingDown =
        s.state.shuttingDown := rfl
    have seq : ({ s.state with heap := head :: rest }.takeDueUpTo now maxBatchSubjects).2.nextSeq =
        s.state.nextSeq := rfl
    rw [← batch] at subjects
    generalize { s.state with heap := head :: rest }.takeDueUpTo now maxBatchSubjects = taken at *
    by_cases empty : taken.1.isEmpty = true
    · rw [if_pos empty]
      have none := batch.trans (isEmpty_iff.mp empty)
      exact ⟨armed, ⟨rfl, rfl, rfl, closed⟩, subjects,
        by rw [none, if_pos rfl, append_nil]; exact outbox,
        fun entry member => within entry (members entry member), seq⟩
    · rw [if_neg empty]
      have some : nextBatch s now ≠ [] := fun none =>
        empty (isEmpty_iff.mpr (batch.symm.trans none))
      exact ⟨⟨armed.sorted, armed.once, armed.armed, armed.capped⟩, ⟨rfl, rfl, rfl, closed⟩, subjects,
        by rw [if_neg some, batch]; exact congrArg (· ++ [taken.1]) outbox,
        fun entry member => within entry (members entry member), seq⟩

/-- The coalescer with the time of each subject's last first admission and the batches handed out so
far. -/
structure History where
  system : System
  since : String → Nat
  emitted : List (List String)

namespace History

def start (intervalMs : Nat) (operational : Bool) : History :=
  ⟨System.start intervalMs operational, fun _ => 0, []⟩

def sinceAfter (h : History) : Op → String → Nat
  | .trySchedule uri now staleRead =>
    if (h.system.shared.trySchedule uri now staleRead).1 = .accepted then
      fun other => if other = uri then now else h.since other
    else h.since
  | _ => h.since

def step (h : History) (op : Op) : History where
  system := h.system.step op
  since := h.sinceAfter op
  emitted := h.emitted ++
    (h.system.step op).shared.state.outbox.drop h.system.shared.state.outbox.length

def state (h : History) : IntakeState := h.system.shared.state

/-- No registration takes a number that an entry of its subject still carries: the counter
would have to come round. -/
def Fresh (h : History) : Op → Prop
  | .trySchedule uri _ _ =>
    ∀ entry ∈ h.state.heap, entry.uri = uri → entry.seq ≠ h.system.shared.freshSeq
  | _ => True

instance (h : History) : (op : Op) → Decidable (Fresh h op)
  | .trySchedule uri _ _ => inferInstanceAs (Decidable
      (∀ entry ∈ h.state.heap, entry.uri = uri → entry.seq ≠ h.system.shared.freshSeq))
  | .intake _ => inferInstanceAs (Decidable True)
  | .popBatch => inferInstanceAs (Decidable True)
  | .sinkReturns => inferInstanceAs (Decidable True)
  | .sinkPanics => inferInstanceAs (Decidable True)
  | .flagPanic => inferInstanceAs (Decidable True)
  | .drainPanicked => inferInstanceAs (Decidable True)
  | .signalShutdown => inferInstanceAs (Decidable True)

structure OnSchedule (h : History) : Prop where
  armed : Armed h.state
  latest : ∀ uri deadlines, h.state.subjects[uri]? = some deadlines →
    deadlines.maxDeadline = saturatingAdd (h.since uri) h.system.shared.maxLatencyMs

theorem armed_empty (outbox : List (List String)) (nextSeq : Nat) (shuttingDown : Bool) :
    Armed ⟨∅, [], outbox, nextSeq, shuttingDown⟩ where
  sorted := List.Pairwise.nil
  once := nodup_nil
  armed := fun uri deadlines registered => by cases registered
  capped := Nat.zero_le _

theorem OnSchedule.start (intervalMs : Nat) (operational : Bool) :
    OnSchedule (start intervalMs operational) where
  armed := armed_empty _ _ _
  latest := fun uri deadlines registered => by cases registered

variable {h : History}

theorem OnSchedule.schedule (ok : OnSchedule h) (uri : String) (now : Nat) (staleRead : Bool)
    (fresh : Fresh h (.trySchedule uri now staleRead)) :
    OnSchedule (h.step (.trySchedule uri now staleRead)) := by
  have attempt := try_schedule_attempt h.system.shared uri now staleRead
  have after : (h.step (.trySchedule uri now staleRead)).system.shared =
      (h.system.shared.trySchedule uri now staleRead).2 := rfl
  have since : (h.step (.trySchedule uri now staleRead)).since =
      if (h.system.shared.trySchedule uri now staleRead).1 = .accepted then
        fun other => if other = uri then now else h.since other
      else h.since := rfl
  cases result : h.system.shared.trySchedule uri now staleRead with
  | mk admission u =>
    rw [result] at attempt after since
    cases attempt with
    | refused admission u lost course outbox subjects heap seq =>
      have purged := ok.armed.purged u.state.heap heap
      have armed : Armed u.state := by
        refine ⟨purged.sorted, ?_, ?_, purged.capped⟩
        · rw [subjects]
          exact purged.once
        · rw [subjects]
          exact purged.armed
      refine ⟨by rw [state, after]; exact armed, fun other deadlines registered => ?_⟩
      rw [state, after, subjects] at registered
      have refused : admission ≠ .accepted := by
        rintro rfl
        exact Bool.noConfusion lost
      rw [since, if_neg refused, after, course.maxLatencyMs]
      exact ok.latest other deadlines registered
    | registered admission u heap kept first course outbox room older subjects pushed seq =>
      have purged := ok.armed.purged heap older
      have within : ∀ entry ∈ heap, entry ∈ h.state.heap := by
        rcases older with rfl | rfl
        · exact fun _ member => member
        · exact fun _ member => (mem_filter.mp member).1
      have armed := purged.register uri (h.system.shared.deadlinesAt uri now) room
        (fun entry member here => fresh entry (within entry member) here) u.state subjects pushed
      refine ⟨by rw [state, after]; exact armed, fun other deadlines registered => ?_⟩
      rw [state, after, subjects, getElem?_insert] at registered
      rw [since, after, course.maxLatencyMs]
      split at registered
      · next same =>
          subst same
          obtain rfl := Option.some.inj registered
          rw [Shared.deadlinesAt]
          cases found : h.system.shared.state.subjects[uri]? with
          | none =>
            rw [if_pos (first.mpr found), if_pos rfl]
            rfl
          | some earlier =>
            have again : admission ≠ .accepted := fun accepted => by
              rw [first.mp accepted] at found
              cases found
            rw [if_neg again]
            exact ok.latest uri earlier found
      · next other =>
          rw [apply_ite (fun since : String → Nat => since _), if_neg (Ne.symm other), ite_self]
          exact ok.latest _ deadlines registered

theorem OnSchedule.moved {next : History} (ok : OnSchedule h)
    (subjects : next.state.subjects = h.state.subjects) (heap : next.state.heap = h.state.heap)
    (latency : next.system.shared.maxLatencyMs = h.system.shared.maxLatencyMs)
    (since : next.since = h.since) : OnSchedule next where
  armed := by
    constructor
    · exact heap ▸ ok.armed.sorted
    · rw [subjects, heap]
      exact ok.armed.once
    · rw [subjects, heap]
      exact ok.armed.armed
    · exact heap ▸ ok.armed.capped
  latest := by
    rw [subjects, latency, since]
    exact ok.latest

theorem OnSchedule.cleared (subjects : h.state.subjects = ∅) (heap : h.state.heap = []) : OnSchedule h where
  armed := by
    constructor
    · rw [heap]
      exact List.Pairwise.nil
    · rw [heap]
      exact nodup_nil
    · intro uri deadlines registered
      rw [subjects] at registered
      cases registered
    · rw [heap]
      exact Nat.zero_le _
  latest := by
    intro uri deadlines registered
    rw [subjects] at registered
    cases registered

/-- What the dispatcher does to the rest: nothing, or it drops all of it. -/
theorem dispatcher_effect (t : System) (op : Op) (turn : op = .popBatch ∨ op = .sinkReturns ∨
    op = .sinkPanics ∨ op = .flagPanic ∨ op = .drainPanicked) :
    ((t.step op).shared.state.subjects = t.shared.state.subjects ∧
      (t.step op).shared.state.heap = t.shared.state.heap ∧
        (t.step op).shared.state.nextSeq = t.shared.state.nextSeq ∧
          (t.step op).shared.maxLatencyMs = t.shared.maxLatencyMs) ∨
    ((t.step op).shared.state.subjects = ∅ ∧ (t.step op).shared.state.heap = [] ∧
      (t.step op).shared.state.nextSeq = t.shared.state.nextSeq) := by
  rcases turn with rfl | rfl | rfl | rfl | rfl
  · left
    rw [System.step, System.popBatch]
    cases t.dispatcher with
    | ready =>
      dsimp only
      split
      · split
        · exact ⟨rfl, rfl, rfl, rfl⟩
        · exact ⟨rfl, rfl, rfl, rfl⟩
      · exact ⟨rfl, rfl, rfl, rfl⟩
    | delivering batch | panicked batch | flagged batch | exited => exact ⟨rfl, rfl, rfl, rfl⟩
  · left
    rw [System.step, System.sinkReturns]
    split
    · exact ⟨rfl, rfl, rfl, rfl⟩
    · exact ⟨rfl, rfl, rfl, rfl⟩
  · left
    rw [System.step, System.sinkPanics]
    split
    · exact ⟨rfl, rfl, rfl, rfl⟩
    · exact ⟨rfl, rfl, rfl, rfl⟩
  · left
    rw [System.step, System.flagPanic]
    split
    · exact ⟨rfl, rfl, rfl, rfl⟩
    · exact ⟨rfl, rfl, rfl, rfl⟩
  · rw [System.step, System.drainPanicked]
    split
    · exact .inr ⟨rfl, rfl, rfl⟩
    · exact .inl ⟨rfl, rfl, rfl, rfl⟩

theorem shutdown_effect :
    s.signalShutdown = s ∨ (s.signalShutdown.state.subjects = ∅ ∧ s.signalShutdown.state.heap = [] ∧
        s.signalShutdown.state.nextSeq = s.state.nextSeq) := by
  rw [Shared.signalShutdown]
  split
  · exact .inl rfl
  · exact .inr ⟨rfl, rfl, rfl⟩

theorem OnSchedule.intake (ok : OnSchedule h) (now : Nat) : OnSchedule (h.step (.intake now)) := by
  have turn := intake_turn h.system.shared ok.armed now
  refine ⟨turn.armed, fun uri deadlines registered => ?_⟩
  have found : (if uri ∈ nextBatch h.system.shared now then none
      else h.system.shared.state.subjects[uri]?) = some deadlines :=
    (turn.subjects uri).symm.trans registered
  have latency : (h.step (.intake now)).system.shared.maxLatencyMs = h.system.shared.maxLatencyMs :=
    turn.course.maxLatencyMs
  rw [latency]
  split at found
  · cases found
  · exact ok.latest uri deadlines found

theorem step_on_schedule (h : History) (op : Op) (ok : OnSchedule h) (fresh : Fresh h op) :
    OnSchedule (h.step op) := by
  have dispatched (turn : op = .popBatch ∨ op = .sinkReturns ∨ op = .sinkPanics ∨ op = .flagPanic ∨
      op = .drainPanicked) (since : (h.step op).since = h.since) : OnSchedule (h.step op) := by
    rcases dispatcher_effect h.system op turn with ⟨subjects, heap, -, latency⟩ | ⟨subjects, heap, -⟩
    · exact ok.moved subjects heap latency since
    · exact .cleared subjects heap
  cases op with
  | trySchedule uri now staleRead => exact ok.schedule uri now staleRead fresh
  | intake now => exact ok.intake now
  | popBatch | sinkReturns | sinkPanics | flagPanic | drainPanicked =>
    exact dispatched (by simp) rfl
  | signalShutdown =>
    rcases shutdown_effect h.system.shared with same | ⟨subjects, heap, -⟩
    · exact ok.moved (congrArg (·.state.subjects) same) (congrArg (·.state.heap) same)
        (congrArg (·.maxLatencyMs) same) rfl
    · exact .cleared subjects heap

structure Timely (h : History) : Prop where
  oneLive : ∀ uri deadlines, h.state.subjects[uri]? = some deadlines →
    h.state.heap.filter (fun entry => live h.state.subjects entry && entry.uri == uri) =
      [⟨min deadlines.quietDeadline deadlines.maxDeadline, deadlines.seq, uri⟩]
  inTime : ∀ uri deadlines, h.state.subjects[uri]? = some deadlines →
    min deadlines.quietDeadline deadlines.maxDeadline ≤ h.since uri + h.system.shared.maxLatencyMs
  capped : h.state.heap.length ≤ maxHeapEntries
  batch : ∀ now limit, (h.state.takeDueUpTo now limit).1 =
    ((dueSubjects h.state.subjects now).take limit).map Prod.snd
  once : ∀ now limit, (h.state.takeDueUpTo now limit).1.Nodup
  rest : ∀ now limit uri, uri ∉ (h.state.takeDueUpTo now limit).1 →
    (h.state.takeDueUpTo now limit).2.subjects[uri]? = h.state.subjects[uri]?
  armed : ∀ now limit, Armed (h.state.takeDueUpTo now limit).2

theorem OnSchedule.timely (ok : OnSchedule h) : Timely h where
  oneLive := fun uri deadlines registered => ok.armed.one_live registered
  inTime := by
    intro uri deadlines registered
    have latest := ok.latest uri deadlines registered
    have bound : saturatingAdd (h.since uri) h.system.shared.maxLatencyMs ≤
        h.since uri + h.system.shared.maxLatencyMs := Nat.min_le_left _ _
    rw [← latest] at bound
    exact Nat.le_trans (Nat.min_le_right _ _) bound
  capped := ok.armed.capped
  batch := fun now limit => ok.armed.take_first now limit
  once := by
    intro now limit
    rw [ok.armed.take_first]
    exact (due_subjects_nodup _ _).sublist ((take_sublist _ _).map _)
  rest := by
    intro now limit uri absent
    rw [taken_subjects, if_neg absent]
  armed := fun now limit => ok.armed.take now limit

def Numbered (h : History) : Prop := ∀ entry ∈ h.state.heap, entry.seq ≤ h.state.nextSeq

theorem Numbered.schedule (numbered : Numbered h) (uri : String) (now : Nat) (staleRead : Bool)
    (few : h.state.nextSeq + 1 < 2 ^ 64) : Numbered (h.step (.trySchedule uri now staleRead)) ∧
      (h.step (.trySchedule uri now staleRead)).state.nextSeq ≤ h.state.nextSeq + 1 := by
  have attempt := try_schedule_attempt h.system.shared uri now staleRead
  have after : (h.step (.trySchedule uri now staleRead)).state =
      (h.system.shared.trySchedule uri now staleRead).2.state := rfl
  have next : h.system.shared.freshSeq = h.state.nextSeq + 1 := wrapping_add_exact _ 1 few
  have known {heap : List HeapEntry} (older : heap = h.system.shared.state.heap ∨
      heap = h.system.shared.state.heap.filter (live h.system.shared.state.subjects)) :
      ∀ entry ∈ heap, entry.seq ≤ h.state.nextSeq := by
    rcases older with rfl | rfl
    · exact numbered
    · exact fun entry member => numbered entry (mem_filter.mp member).1
  rw [Numbered, after]
  cases result : h.system.shared.trySchedule uri now staleRead with
  | mk admission u =>
    rw [result] at attempt
    dsimp only
    cases attempt with
    | refused admission u lost course outbox subjects heap seq =>
      have same : u.state.nextSeq = h.state.nextSeq ∨ u.state.nextSeq = h.state.nextSeq + 1 :=
        next ▸ seq
      refine ⟨fun entry member => ?_, by omega⟩
      have old := known heap entry member
      omega
    | registered admission u heap kept first course outbox room older subjects pushed seq =>
      have same : u.state.nextSeq = h.state.nextSeq + 1 := seq.trans next
      refine ⟨fun entry member => ?_, Nat.le_of_eq same⟩
      rw [pushed, pushHeapEntry, mem_orderedInsert] at member
      rcases member with rfl | earlier
      · exact Nat.le_of_eq seq.symm
      · have old := known older entry earlier
        omega

theorem step_numbered (numbered : Numbered h) (ok : OnSchedule h) (op : Op)
    (few : h.state.nextSeq + 1 < 2 ^ 64) :
    Numbered (h.step op) ∧ (h.step op).state.nextSeq ≤ h.state.nextSeq + 1 := by
  have dispatched (turn : op = .popBatch ∨ op = .sinkReturns ∨ op = .sinkPanics ∨ op = .flagPanic ∨
      op = .drainPanicked) :
      Numbered (h.step op) ∧ (h.step op).state.nextSeq ≤ h.state.nextSeq + 1 := by
    rcases dispatcher_effect h.system op turn with ⟨-, heap, seq, -⟩ | ⟨-, heap, seq⟩
    · constructor
      · rw [Numbered, state, step, heap, seq]
        exact numbered
      · exact le_succ_of_le (Nat.le_of_eq seq)
    · constructor
      · rw [Numbered, state, step, heap]
        exact fun entry member => absurd member not_mem_nil
      · exact le_succ_of_le (Nat.le_of_eq seq)
  cases op with
  | trySchedule uri now staleRead => exact numbered.schedule uri now staleRead few
  | intake now =>
    have turn := intake_turn h.system.shared ok.armed now
    constructor
    · intro entry member
      have seq : (h.step (.intake now)).state.nextSeq = h.state.nextSeq := turn.seq
      rw [seq]
      exact numbered entry (turn.heap entry member)
    · exact le_succ_of_le (Nat.le_of_eq turn.seq)
  | popBatch | sinkReturns | sinkPanics | flagPanic | drainPanicked => exact dispatched (by simp)
  | signalShutdown =>
    rcases shutdown_effect h.system.shared with same | ⟨-, heap, seq⟩
    · rw [state, step, System.step]
      rw [same]
      exact ⟨numbered, le_succ _⟩
    constructor
    · rw [Numbered, state, step, System.step]
      rw [heap]
      exact fun entry member => absurd member not_mem_nil
    · exact le_succ_of_le (Nat.le_of_eq seq)

theorem short_run_fresh (ops : List Op) (h : History) (ok : OnSchedule h) (numbered : Numbered h)
    (few : h.state.nextSeq + ops.length < 2 ^ 64) : StepsMeet step Fresh h ops := by
  induction ops generalizing h with
  | nil => trivial
  | cons op rest ih =>
    rw [length_cons] at few
    have one : h.state.nextSeq + 1 < 2 ^ 64 := by omega
    have fresh : Fresh h op := by
      cases op with
      | trySchedule uri now staleRead =>
        intro entry member _
        have next : h.system.shared.freshSeq = h.state.nextSeq + 1 := wrapping_add_exact _ 1 one
        have old := numbered entry member
        omega
      | intake now => trivial
      | popBatch => trivial
      | sinkReturns => trivial
      | sinkPanics => trivial
      | flagPanic => trivial
      | drainPanicked => trivial
      | signalShutdown => trivial
    obtain ⟨still, grown⟩ := step_numbered numbered ok op one
    exact ⟨fresh, ih (h.step op) (step_on_schedule h op ok fresh) still (by omega)⟩

def viewed (subjects : Subjects) (uri : String) : Option (Nat × Nat) :=
  subjects[uri]?.map fun deadlines => (deadlines.quietDeadline, deadlines.maxDeadline)

theorem mem_due_viewed : (deadline, uri) ∈ dueSubjects subjects now ↔ deadline ≤ now ∧
      ∃ view, viewed subjects uri = some view ∧ min view.1 view.2 = deadline := by
  rw [mem_due_subjects]
  apply and_congr_right
  intro _
  constructor
  · rintro ⟨deadlines, registered, same⟩
    exact ⟨(deadlines.quietDeadline, deadlines.maxDeadline), by rw [viewed, registered]; rfl, same⟩
  · rintro ⟨view, seen, same⟩
    obtain ⟨deadlines, registered, rfl⟩ := Option.map_eq_some_iff.mp seen
    exact ⟨deadlines, registered, same⟩

section
variable {left right : Subjects} (same : ∀ uri, viewed left uri = viewed right uri)
include left right same

theorem due_subjects_viewed (now : Nat) : dueSubjects left now = dueSubjects right now := by
  have nodup (subjects : Subjects) : (dueSubjects subjects now).Nodup :=
    List.Nodup.of_map Prod.snd (due_subjects_nodup subjects now)
  have perm : (dueSubjects left now).Perm (dueSubjects right now) := by
    apply (perm_ext_iff_of_nodup (nodup left) (nodup right)).mpr
    rintro ⟨deadline, uri⟩
    rw [mem_due_viewed, mem_due_viewed, same]
  exact perm.eq_of_pairwise (fun _ _ _ _ => due_order_antisymm)
    (pairwise_insertionSort DueOrder _) (pairwise_insertionSort DueOrder _)

theorem keys_viewed : left.keys = right.keys := by
  have member (subjects : Subjects) (uri : String) :
      uri ∈ subjects.keys ↔ (viewed subjects uri).isSome = true := by
    rw [TreeMap.mem_keys, TreeMap.mem_iff_isSome_getElem?, viewed, Option.isSome_map]
  have nodup (subjects : Subjects) : subjects.keys.Nodup := by
    rw [← TreeMap.map_fst_toList_eq_keys]
    exact keys_nodup subjects
  have perm : left.keys.Perm right.keys := by
    apply (perm_ext_iff_of_nodup (nodup left) (nodup right)).mpr
    intro uri
    rw [member, member, same]
  apply perm.eq_of_pairwise ?_ TreeMap.ordered_keys TreeMap.ordered_keys
  intro first second _ _ less more
  have swapped := Std.OrientedCmp.gt_of_lt less
  rw [more] at swapped
  cases swapped

end

structure Alike (t u : History) : Prop where
  pending : ∀ uri, viewed t.state.subjects uri = viewed u.state.subjects uri
  outbox : t.state.outbox = u.state.outbox
  dispatcher : t.system.dispatcher = u.system.dispatcher
  emitted : t.emitted = u.emitted
  course : SameCourse t.system.shared u.system.shared

section
variable {t u : History} (alike : Alike t u)
include t u alike

theorem Alike.next_batch (now : Nat) : nextBatch t.system.shared now = nextBatch u.system.shared now := by
  have outbox : t.system.shared.state.outbox = u.system.shared.state.outbox := alike.outbox
  have due : dueSubjects t.system.shared.state.subjects now =
      dueSubjects u.system.shared.state.subjects now := due_subjects_viewed alike.pending now
  rw [nextBatch, nextBatch, alike.course.shuttingDown, alike.course.sinkPanic, outbox, due]

theorem Alike.emits (op : Op) (outbox : (t.step op).state.outbox = (u.step op).state.outbox) :
    (t.step op).emitted = (u.step op).emitted := by
  have before : t.system.shared.state.outbox = u.system.shared.state.outbox := alike.outbox
  have after : (t.system.step op).shared.state.outbox = (u.system.step op).shared.state.outbox :=
    outbox
  rw [step, step, alike.emitted, before, after]

theorem Alike.intake (left : OnSchedule t) (right : OnSchedule u)
    (now : Nat) : Alike (t.step (.intake now)) (u.step (.intake now)) := by
  have first := intake_turn t.system.shared left.armed now
  have second := intake_turn u.system.shared right.armed now
  have batch := alike.next_batch now
  have outbox : (t.step (.intake now)).state.outbox = (u.step (.intake now)).state.outbox := by
    refine first.outbox.trans (Eq.trans ?_ second.outbox.symm)
    rw [batch]
    exact congrArg (· ++ _) alike.outbox
  refine ⟨fun uri => ?_, outbox, alike.dispatcher, alike.emits _ outbox,
    first.course.symm.trans (alike.course.trans second.course)⟩
  have seen (h : History) (turn : IntakeTurn h.system.shared now (h.step (.intake now)).system.shared) :
      viewed (h.step (.intake now)).state.subjects uri =
        if uri ∈ nextBatch h.system.shared now then none else viewed h.state.subjects uri := by
    rw [viewed, state, turn.subjects, apply_ite (Option.map _)]
    rfl
  rw [seen t first, seen u second, batch, alike.pending]

theorem Alike.dispatched (op : Op) (turn : op = .popBatch ∨
    op = .sinkReturns ∨ op = .sinkPanics ∨ op = .flagPanic ∨ op = .drainPanicked) :
    Alike (t.step op) (u.step op) := by
  obtain ⟨⟨⟨tState, tPanic, tInterval, tLatency, tStats, tOperational⟩, tDispatcher, tAdmitted,
    tDelivered, tDropped⟩, tSince, tEmitted⟩ := t
  obtain ⟨⟨⟨uState, uPanic, uInterval, uLatency, uStats, uOperational⟩, uDispatcher, uAdmitted,
    uDelivered, uDropped⟩, uSince, uEmitted⟩ := u
  obtain ⟨tSubjects, tHeap, tOutbox, tSeq, tClosing⟩ := tState
  obtain ⟨uSubjects, uHeap, uOutbox, uSeq, uClosing⟩ := uState
  obtain ⟨pending, outbox, dispatcher, emitted, panic, interval, latency, closing⟩ := alike
  dsimp only [state] at pending outbox dispatcher emitted panic interval latency closing
  subst outbox dispatcher emitted panic interval latency closing
  rcases turn with rfl | rfl | rfl | rfl | rfl
  · cases tDispatcher with
    | ready =>
      cases tOutbox with
      | nil =>
        cases uClosing with
        | true | false => exact ⟨pending, rfl, rfl, rfl, rfl, rfl, rfl, rfl⟩
      | cons batch rest => exact ⟨pending, rfl, rfl, rfl, rfl, rfl, rfl, rfl⟩
    | delivering batch | panicked batch | flagged batch | exited =>
      exact ⟨pending, rfl, rfl, rfl, rfl, rfl, rfl, rfl⟩
  · cases tDispatcher <;> exact ⟨pending, rfl, rfl, rfl, rfl, rfl, rfl, rfl⟩
  · cases tDispatcher <;> exact ⟨pending, rfl, rfl, rfl, rfl, rfl, rfl, rfl⟩
  · cases tDispatcher <;> exact ⟨pending, rfl, rfl, rfl, rfl, rfl, rfl, rfl⟩
  · cases tDispatcher with
    | ready | delivering batch | panicked batch | exited =>
      exact ⟨pending, rfl, rfl, rfl, rfl, rfl, rfl, rfl⟩
    | flagged batch => exact ⟨fun _ => rfl, rfl, rfl, rfl, rfl, rfl, rfl, rfl⟩

theorem Alike.shutdown : Alike (t.step .signalShutdown) (u.step .signalShutdown) := by
  have closing : u.system.shared.state.shuttingDown = t.system.shared.state.shuttingDown :=
    alike.course.shuttingDown
  have keys : t.system.shared.state.subjects.keys = u.system.shared.state.subjects.keys :=
    keys_viewed alike.pending
  by_cases already : t.system.shared.state.shuttingDown = true
  · have first : t.system.shared.signalShutdown = t.system.shared := if_pos already
    have second : u.system.shared.signalShutdown = u.system.shared := if_pos (closing.trans already)
    have outbox : (t.step .signalShutdown).state.outbox = (u.step .signalShutdown).state.outbox := by
      rw [state, step, step, System.step, System.step]
      rw [first, second]
      exact alike.outbox
    refine ⟨?_, outbox, alike.dispatcher, alike.emits _ outbox, ?_⟩
    · rw [state, step, step, System.step, System.step]
      rw [first, second]
      exact alike.pending
    · rw [step, step, System.step, System.step]
      rw [first, second]
      exact alike.course
  · have later : ¬ u.system.shared.state.shuttingDown = true := fun yes =>
      already (closing.symm.trans yes)
    have outbox : (t.step .signalShutdown).state.outbox = (u.step .signalShutdown).state.outbox := by
      rw [step, step, System.step, System.step, Shared.signalShutdown,
        Shared.signalShutdown, if_neg already, if_neg later]
      rw [keys]
      exact congrArg (· ++ _) alike.outbox
    refine ⟨?_, outbox, alike.dispatcher, alike.emits _ outbox, ?_⟩
    · rw [step, step, System.step, System.step, Shared.signalShutdown,
        Shared.signalShutdown, if_neg already, if_neg later]
      exact fun uri => rfl
    · rw [step, step, System.step, System.step, Shared.signalShutdown,
        Shared.signalShutdown, if_neg already, if_neg later]
      exact ⟨alike.course.sinkPanic, alike.course.intervalMs, alike.course.maxLatencyMs, rfl⟩

theorem Alike.step (left : OnSchedule t) (right : OnSchedule u)
    (op : Op) (other : ∀ uri now staleRead, op ≠ .trySchedule uri now staleRead) :
    Alike (t.step op) (u.step op) := by
  cases op with
  | trySchedule uri now staleRead => exact absurd rfl (other uri now staleRead)
  | intake now => exact alike.intake left right now
  | popBatch | sinkReturns | sinkPanics | flagPanic | drainPanicked =>
    exact alike.dispatched _ (by simp)
  | signalShutdown => exact alike.shutdown

end

/-- The schedules of one instant; the flags are their readings of `sink_panic`. -/
def schedules (now : Nat) (attempts : List (String × Bool)) : List Op :=
  attempts.map fun attempt => .trySchedule attempt.1 now attempt.2

def admittedAt (h : History) (now : Nat) : List (String × Bool) → List String
  | [] => []
  | (uri, staleRead) :: rest =>
    (if (h.system.shared.trySchedule uri now staleRead).1.retained then [uri] else []) ++
      admittedAt (h.step (.trySchedule uri now staleRead)) now rest

structure Instant (t : History) (now : Nat) (subjects : List String) (u : History) : Prop where
  pending : ∀ uri, viewed u.state.subjects uri =
    if uri ∈ subjects then
      some (saturatingAdd now t.system.shared.intervalMs,
        ((viewed t.state.subjects uri).map Prod.snd).getD
          (saturatingAdd now t.system.shared.maxLatencyMs))
    else viewed t.state.subjects uri
  outbox : u.state.outbox = t.state.outbox
  dispatcher : u.system.dispatcher = t.system.dispatcher
  emitted : u.emitted = t.emitted
  course : SameCourse t.system.shared u.system.shared

theorem Instant.followed {s t u : History} {now : Nat} {first second : List String}
    (before : Instant s now first t) (after : Instant t now second u) :
    Instant s now (first ++ second) u where
  pending := by
    intro uri
    rw [after.pending, before.pending, before.course.intervalMs, before.course.maxLatencyMs]
    by_cases early : uri ∈ first
    · rw [if_pos (mem_append_left second early)]
      split
      · rfl
      · rfl
    · rw [if_neg early]
      by_cases late : uri ∈ second
      · rw [if_pos late, if_pos (mem_append_right first late)]
      · rw [if_neg late, if_neg]
        exact fun either => (mem_append.mp either).elim early late
  outbox := after.outbox.trans before.outbox
  dispatcher := after.dispatcher.trans before.dispatcher
  emitted := after.emitted.trans before.emitted
  course := before.course.trans after.course

theorem schedule_instant (h : History) (uri : String) (now : Nat) (staleRead : Bool) :
    Instant h now (if (h.system.shared.trySchedule uri now staleRead).1.retained then [uri] else [])
      (h.step (.trySchedule uri now staleRead)) := by
  have attempt := try_schedule_attempt h.system.shared uri now staleRead
  have after : (h.step (.trySchedule uri now staleRead)).system.shared =
      (h.system.shared.trySchedule uri now staleRead).2 := rfl
  have emitted (same : (h.system.shared.trySchedule uri now staleRead).2.state.outbox =
      h.system.shared.state.outbox) :
      (h.step (.trySchedule uri now staleRead)).emitted = h.emitted := by
    rw [step, System.step]
    dsimp only
    rw [same, drop_length, append_nil]
  cases result : h.system.shared.trySchedule uri now staleRead with
  | mk admission u =>
    rw [result] at attempt after emitted
    dsimp only at after emitted ⊢
    cases attempt with
    | refused admission u lost course outbox subjects heap seq =>
      constructor
      · intro other
        rw [lost, if_neg Bool.false_ne_true, if_neg not_mem_nil, state, after, subjects]
        rfl
      · rw [state, after, outbox]
        rfl
      · rfl
      · exact emitted outbox
      · exact after ▸ course
    | registered admission u heap kept first course outbox room older subjects pushed seq =>
      constructor
      · intro other
        rw [if_pos kept, state, after, viewed, subjects, getElem?_insert]
        by_cases same : uri = other
        · subst same
          rw [if_pos rfl, if_pos mem_cons_self, viewed, Option.map_map]
          rfl
        · rw [if_neg same, if_neg (fun member => same (mem_singleton.mp member).symm)]
          rfl
      · rw [state, after, outbox]
        rfl
      · rfl
      · exact emitted outbox
      · exact after ▸ course

theorem schedules_instant (h : History) (now : Nat) (attempts : List (String × Bool)) :
    Instant h now (admittedAt h now attempts) (run step h (schedules now attempts)) := by
  induction attempts generalizing h with
  | nil => exact ⟨fun uri => (if_neg not_mem_nil).symm, rfl, rfl, rfl, ⟨rfl, rfl, rfl, rfl⟩⟩
  | cons attempt rest ih =>
    exact (schedule_instant h attempt.1 now attempt.2).followed (ih _)

theorem Alike.instant {t u : History} (alike : Alike t u) (now : Nat) (left right : List (String × Bool))
    (same : ∀ uri, uri ∈ admittedAt t now left ↔ uri ∈ admittedAt u now right) :
    Alike (run History.step t (schedules now left)) (run History.step u (schedules now right)) := by
  have first := schedules_instant t now left
  have second := schedules_instant u now right
  constructor
  · intro uri
    rw [first.pending, second.pending, alike.pending, alike.course.intervalMs, alike.course.maxLatencyMs]
    simp only [same]
  · exact first.outbox.trans (alike.outbox.trans second.outbox.symm)
  · exact first.dispatcher.trans (alike.dispatcher.trans second.dispatcher.symm)
  · exact first.emitted.trans (alike.emitted.trans second.emitted.symm)
  · exact first.course.symm.trans (alike.course.trans second.course)

inductive SameAdmissions : History → History → List Op → List Op → Prop where
  | done (t u : History) : SameAdmissions t u [] []
  | turn (t u : History) (op : Op) (left right : List Op)
      (other : ∀ uri now staleRead, op ≠ .trySchedule uri now staleRead)
      (rest : SameAdmissions (t.step op) (u.step op) left right) :
      SameAdmissions t u (op :: left) (op :: right)
  | instant (t u : History) (now : Nat) (first second : List (String × Bool)) (left right : List Op)
      (same : ∀ uri, uri ∈ admittedAt t now first ↔ uri ∈ admittedAt u now second)
      (rest : SameAdmissions (run step t (schedules now first)) (run step u (schedules now second))
        left right) :
      SameAdmissions t u (schedules now first ++ left) (schedules now second ++ right)

theorem run_on_schedule (ok : OnSchedule h) (ops : List Op) (fresh : StepsMeet step Fresh h ops) :
    OnSchedule (run step h ops) := by
  induction ops generalizing h with
  | nil => exact ok
  | cons op rest ih => exact ih (step_on_schedule h op ok fresh.1) fresh.2

theorem same_admissions_alike {t u : History} {left right : List Op}
    (same : SameAdmissions t u left right) (alike : Alike t u) (first : OnSchedule t)
    (second : OnSchedule u) (leftFresh : StepsMeet step Fresh t left)
    (rightFresh : StepsMeet step Fresh u right) : Alike (run step t left) (run step u right) := by
  induction same with
  | done t u => exact alike
  | turn t u op left right other rest ih =>
    exact ih (alike.step first second op other) (step_on_schedule t op first leftFresh.1)
      (step_on_schedule u op second rightFresh.1) leftFresh.2 rightFresh.2
  | instant t u now before after left right same rest ih =>
    obtain ⟨leftNow, leftLater⟩ := (steps_meet_append _ _ _ _ _).mp leftFresh
    obtain ⟨rightNow, rightLater⟩ := (steps_meet_append _ _ _ _ _).mp rightFresh
    rw [run_append, run_append]
    exact ih (alike.instant now before after same) (run_on_schedule first _ leftNow)
      (run_on_schedule second _ rightNow) leftLater rightLater

theorem pending_on_schedule (intervalMs : Nat) (operational : Bool) (left : List Op)
    (fresh : StepsMeet step Fresh (start intervalMs operational) left) :
    Along step Timely (start intervalMs operational) left ∧
      (∀ right, SameAdmissions (start intervalMs operational) (start intervalMs operational) left right →
        StepsMeet step Fresh (start intervalMs operational) right →
        (run step (start intervalMs operational) right).emitted =
          (run step (start intervalMs operational) left).emitted) ∧
      ∀ ops : List Op, ops.length < 2 ^ 64 → StepsMeet step Fresh (start intervalMs operational) ops := by
  have first := OnSchedule.start intervalMs operational
  refine ⟨?_, ?_, ?_⟩
  · have along := along_of_steps step OnSchedule Fresh step_on_schedule _ left first fresh
    exact along_mono step (fun h ok => ok.timely) _ left along
  · intro right same also
    have alike : Alike (start intervalMs operational) (start intervalMs operational) :=
      ⟨fun _ => rfl, rfl, rfl, rfl, ⟨rfl, rfl, rfl, rfl⟩⟩
    exact (same_admissions_alike same alike first first fresh also).emitted.symm
  · intro ops few
    apply short_run_fresh ops _ first
    · exact fun entry member => absurd member not_mem_nil
    · exact Nat.lt_of_le_of_lt (Nat.le_of_eq (Nat.zero_add _)) few

/-- Two subjects admitted in either order at one instant leave in one batch. -/
theorem pending_on_schedule_pair :
    (run step (start 50 true)
        (schedules 7 [("b.pm", false), ("a.pm", false)] ++ [.intake 57])).emitted =
      (run step (start 50 true)
        (schedules 7 [("a.pm", false), ("b.pm", false)] ++ [.intake 57])).emitted := by
  have short : StepsMeet step Fresh (start 50 true)
      (schedules 7 [("a.pm", false), ("b.pm", false)] ++ [.intake 57]) := by decide +kernel
  have also : StepsMeet step Fresh (start 50 true)
      (schedules 7 [("b.pm", false), ("a.pm", false)] ++ [.intake 57]) := by decide +kernel
  apply (pending_on_schedule 50 true _ short).2.1 _ _ also
  apply SameAdmissions.instant
  · have left : admittedAt (start 50 true) 7 [("a.pm", false), ("b.pm", false)] =
        ["a.pm", "b.pm"] := by decide +kernel
    have right : admittedAt (start 50 true) 7 [("b.pm", false), ("a.pm", false)] =
        ["b.pm", "a.pm"] := by decide +kernel
    intro uri
    rw [left, right]
    exact (List.Perm.swap "b.pm" "a.pm" []).mem_iff
  · exact .turn _ _ _ _ _ (fun _ _ _ => Op.noConfusion) (.done _ _)

/-- One subject that is pending since its first instant, last registered under `seq`. -/
def Rescheduled (s : Shared) (seq : Nat) (stale : List HeapEntry) : Prop :=
  ∃ (subjects : Subjects) (outbox : List (List String)) (latency : Nat) (stats : CoalescerStats),
    subjects["a.pm"]? = some ⟨50, 500, seq⟩ ∧
      s = ⟨⟨subjects, ⟨50, seq, "a.pm"⟩ :: stale, outbox, seq, false⟩, false, 50, latency, stats, true⟩

theorem reschedule {s : Shared} (pending : Rescheduled s seq stale) (few : stale.length ≤ 1) :
    ∃ (subjects : Subjects) (outbox : List (List String)) (latency : Nat) (stats : CoalescerStats),
      subjects["a.pm"]? = some ⟨50, 500, wrappingAdd seq 1⟩ ∧ (s.trySchedule "a.pm" 0 false).2 =
          ⟨⟨subjects, pushHeapEntry (⟨50, seq, "a.pm"⟩ :: stale) ⟨50, wrappingAdd seq 1, "a.pm"⟩, outbox,
            wrappingAdd seq 1, false⟩, false, 50, latency, stats, true⟩ := by
  obtain ⟨subjects, outbox, latency, stats, found, rfl⟩ := pending
  have room : stale.length + 1 < maxHeapEntries := by
    rw [maxHeapEntries, maxPendingSubjects]
    omega
  refine ⟨subjects.insert "a.pm" ⟨50, 500, wrappingAdd seq 1⟩, outbox, latency,
    { stats with coalescedTotal := wrappingAdd stats.coalescedTotal 1 },
    TreeMap.getElem?_insert_self, ?_⟩
  simp only [Shared.trySchedule, Shared.register, found, length_cons, if_pos room]
  rfl

/-- A schedule and a turn of the intake worker that finds the new entry first. -/
theorem rescheduled_round {s : Shared} (left : List HeapEntry) (pending : Rescheduled s seq stale)
    (few : stale.length ≤ 1)
    (purged : ∀ subjects : Subjects, subjects["a.pm"]? = some ⟨50, 500, wrappingAdd seq 1⟩ →
      purgeHeads subjects (pushHeapEntry (⟨50, seq, "a.pm"⟩ :: stale)
        ⟨50, wrappingAdd seq 1, "a.pm"⟩) = ⟨50, wrappingAdd seq 1, "a.pm"⟩ :: left) :
    Rescheduled ((s.trySchedule "a.pm" 0 false).2.intake 0) (wrappingAdd seq 1) left := by
  obtain ⟨subjects, outbox, latency, stats, found, after⟩ := reschedule pending few
  refine ⟨subjects, outbox, latency, stats, found, ?_⟩
  rw [after, Shared.intake]
  rw [if_neg Bool.false_ne_true, if_neg Bool.false_ne_true, purged subjects found]
  dsimp only
  rw [if_pos (by decide)]

def round : List Op := [.trySchedule "a.pm" 0 false, .intake 0]

theorem run_rounds (h : History) (count : Nat) : run step h (replicate (count + 1) round).flatten =
      run step (run step h round) (replicate count round).flatten := by
  rw [replicate_succ, flatten_cons, run_append]

theorem entry_dead {subjects : Subjects} (found : subjects["a.pm"]? = some ⟨50, 500, seq⟩)
    (here : entry.uri = "a.pm") (other : entry.seq ≠ seq) : ¬ live subjects entry = true := by
  intro alive
  obtain ⟨deadlines, registered, same⟩ := (live_iff _ _).mp alive
  rw [here, found] at registered
  obtain rfl := Option.some.inj registered
  exact other same.symm

theorem purge_earlier {subjects : Subjects} (found : subjects["a.pm"]? = some ⟨50, 500, seq + 1⟩) :
    purgeHeads subjects (⟨50, seq, "a.pm"⟩ :: ⟨50, seq + 1, "a.pm"⟩ :: rest) =
      ⟨50, seq + 1, "a.pm"⟩ :: rest := by
  rw [purgeHeads, if_neg (entry_dead found rfl (Nat.ne_of_lt (lt_succ_self seq))), purgeHeads,
    if_pos ((live_iff _ _).mpr ⟨_, found, rfl⟩)]

theorem before_of_seq {left right : Nat} (below : left < right) :
    Before ⟨50, left, uri⟩ ⟨50, right, uri⟩ := .inr ⟨rfl, .inl below⟩

theorem not_before_of_seq {left right : Nat} (below : left < right) :
    ¬ Before ⟨50, right, uri⟩ ⟨50, left, uri⟩ := by
  rintro (less | ⟨-, less | ⟨same, -⟩⟩)
  · exact Nat.lt_irrefl _ less
  · exact Nat.lt_asymm below less
  · exact Nat.ne_of_gt below same

/-- While every push puts the new entry second, the old one is purged each time. -/
theorem many_rounds {stale : List HeapEntry} (short : stale.length ≤ 1) (bound : Nat)
    (small : bound ≤ 2 ^ 64) (pushed : ∀ seq, seq + 1 < bound →
      pushHeapEntry (⟨50, seq, "a.pm"⟩ :: stale) ⟨50, seq + 1, "a.pm"⟩ =
        ⟨50, seq, "a.pm"⟩ :: ⟨50, seq + 1, "a.pm"⟩ :: stale)
    (h : History) (seq : Nat) (few : seq + count < bound) (pending : Rescheduled h.system.shared seq stale) :
    Rescheduled (run step h (replicate count round).flatten).system.shared (seq + count) stale := by
  induction count generalizing h seq with
  | zero => exact pending
  | succ count ih =>
    have next : wrappingAdd seq 1 = seq + 1 := wrapping_add_exact seq 1 (by omega)
    have turn := rescheduled_round stale pending short (by
      intro subjects found
      rw [next] at found ⊢
      rw [pushed seq (by omega)]
      exact purge_earlier _ found)
    rw [next] at turn
    rw [run_rounds, Nat.add_comm count, ← Nat.add_assoc]
    exact ih (run step h round) (seq + 1) (by omega) turn

/-- Until the counter comes round the old entry is purged each time. -/
theorem first_rounds (h : History) (seq : Nat) (few : seq + count < 2 ^ 64)
    (pending : Rescheduled h.system.shared seq []) :
    Rescheduled (run step h (replicate count round).flatten).system.shared (seq + count) [] := by
  refine many_rounds _ (Nat.zero_le _) _ (Nat.le_refl _) (fun seq _ => ?_) h seq few pending
  rw [pushHeapEntry, orderedInsert_cons, if_neg (not_before_of_seq _ (lt_succ_self seq))]
  rfl

def lastSeq : Nat := 2 ^ 64 - 1

theorem come_round (h : History) (pending : Rescheduled h.system.shared lastSeq []) :
    Rescheduled (run step h round).system.shared 0 [⟨50, lastSeq, "a.pm"⟩] := by
  have next : wrappingAdd lastSeq 1 = 0 := by decide
  have turn := rescheduled_round [⟨50, lastSeq, "a.pm"⟩] pending (Nat.zero_le _) (by
    intro subjects found
    rw [next] at found ⊢
    have pushed : pushHeapEntry [⟨50, lastSeq, "a.pm"⟩] ⟨50, 0, "a.pm"⟩ =
        [⟨50, 0, "a.pm"⟩, ⟨50, lastSeq, "a.pm"⟩] := by
      rw [pushHeapEntry, orderedInsert_cons, if_pos (before_of_seq _ (by decide))]
    rw [pushed, purgeHeads, if_pos ((live_iff _ _).mpr ⟨_, found, rfl⟩)])
  exact turn

/-- Past that the entry with the last number stays behind the live one. -/
theorem later_rounds (h : History) (seq : Nat) (few : seq + count < lastSeq)
    (pending : Rescheduled h.system.shared seq [⟨50, lastSeq, "a.pm"⟩]) :
    Rescheduled (run step h (replicate count round).flatten).system.shared (seq + count)
      [⟨50, lastSeq, "a.pm"⟩] := by
  refine many_rounds _ (by simp) _ (by decide) (fun seq below => ?_) h seq few pending
  rw [pushHeapEntry, orderedInsert_cons, if_neg (not_before_of_seq _ (lt_succ_self seq)),
    orderedInsert_cons, if_pos (before_of_seq _ below)]

/-- One subject rescheduled, and looked at by the intake worker, until its number comes back. -/
def comeRound : List Op :=
  (replicate (1 + (2 ^ 64 - 2) + 1 + (2 ^ 64 - 2)) round).flatten ++ [.trySchedule "a.pm" 0 false]

theorem first_round : Rescheduled (run step (start 50 true) round).system.shared 1 [] := by
  refine ⟨TreeMap.insert ∅ "a.pm" ⟨50, 500, 1⟩, [], 500,
    (run step (start 50 true) round).system.shared.stats, by decide +kernel, rfl⟩

theorem rounds_split (h : History) (first second : Nat) :
    run step h (replicate (first + second) round).flatten =
      run step (run step h (replicate first round).flatten) (replicate second round).flatten := by
  rw [replicate_add, flatten_append, run_append]

theorem reschedule_last {s : Shared} (pending : Rescheduled s (2 ^ 64 - 2) [⟨50, lastSeq, "a.pm"⟩]) :
    (s.trySchedule "a.pm" 0 false).2.state.subjects["a.pm"]? = some ⟨50, 500, lastSeq⟩ ∧
      (s.trySchedule "a.pm" 0 false).2.state.heap =
        [⟨50, 2 ^ 64 - 2, "a.pm"⟩, ⟨50, lastSeq, "a.pm"⟩, ⟨50, lastSeq, "a.pm"⟩] := by
  obtain ⟨subjects, outbox, latency, stats, found, after⟩ := reschedule pending (Nat.le_refl 1)
  have next : wrappingAdd (2 ^ 64 - 2) 1 = lastSeq := by decide
  have pushed : pushHeapEntry [⟨50, 2 ^ 64 - 2, "a.pm"⟩, ⟨50, lastSeq, "a.pm"⟩] ⟨50, lastSeq, "a.pm"⟩ =
      [⟨50, 2 ^ 64 - 2, "a.pm"⟩, ⟨50, lastSeq, "a.pm"⟩, ⟨50, lastSeq, "a.pm"⟩] := by
    have back : ¬ Before ⟨50, lastSeq, "a.pm"⟩ ⟨50, 2 ^ 64 - 2, "a.pm"⟩ :=
      not_before_of_seq _ (by decide)
    have equal : Before ⟨50, lastSeq, "a.pm"⟩ ⟨50, lastSeq, "a.pm"⟩ :=
      .inr ⟨rfl, .inr ⟨rfl, String.le_refl _⟩⟩
    rw [pushHeapEntry, orderedInsert_cons, if_neg back, orderedInsert_cons, if_pos equal]
  rw [after]
  rw [next] at found ⊢
  exact ⟨found, pushed⟩

theorem rounds_done : Rescheduled (run step (start 50 true)
      (replicate (1 + (2 ^ 64 - 2) + 1 + (2 ^ 64 - 2)) round).flatten).system.shared
    (2 ^ 64 - 2) [⟨50, lastSeq, "a.pm"⟩] := by
  have one (h : History) : run step h round = run step h (replicate 1 round).flatten := rfl
  have once := first_round
  rw [one] at once
  have whole := first_rounds (2 ^ 64 - 2) _ 1 (by decide) once
  rw [← rounds_split] at whole
  have wrapped := come_round _ whole
  rw [one, ← rounds_split] at wrapped
  have again := later_rounds (2 ^ 64 - 2) _ 0 (by decide) wrapped
  rw [← rounds_split] at again
  exact again

theorem run_then_schedule (h : History) (ops : List Op) :
    (run step h (ops ++ [.trySchedule "a.pm" 0 false])).system.shared =
      ((run step h ops).system.shared.trySchedule "a.pm" 0 false).2 := by
  rw [run_append]
  rfl

theorem twice_live (registered : h.state.subjects["a.pm"]? = some ⟨50, 500, lastSeq⟩)
    (heap : h.state.heap = [⟨50, 2 ^ 64 - 2, "a.pm"⟩, ⟨50, lastSeq, "a.pm"⟩, ⟨50, lastSeq, "a.pm"⟩]) :
    ¬ Timely h := by
  intro timely
  have single := timely.oneLive "a.pm" _ registered
  have alive : live h.state.subjects ⟨50, lastSeq, "a.pm"⟩ = true :=
    (live_iff _ _).mpr ⟨_, registered, rfl⟩
  have dead : ¬ live h.state.subjects ⟨50, 2 ^ 64 - 2, "a.pm"⟩ = true :=
    entry_dead registered rfl (by decide)
  rw [heap, filter_cons_of_neg, filter_cons_of_pos, filter_cons_of_pos] at single
  · cases (cons.inj single).2
  · exact (and_eq_true _ _).mpr ⟨alive, rfl⟩
  · exact (and_eq_true _ _).mpr ⟨alive, rfl⟩
  · intro both
    exact dead ((and_eq_true _ _).mp both).1

theorem number_comes_back : ¬ Along step Timely (start 50 true) comeRound := by
  intro along
  have ended := (along_iff_prefixes step Timely _ _).mp along comeRound [] (append_nil _).symm
  obtain ⟨registered, heap⟩ := reschedule_last rounds_done
  rw [comeRound] at ended
  rw [← run_then_schedule] at registered heap
  apply twice_live _ _ ended
  · rw [state]
    exact registered
  · rw [state]
    exact heap

end History

end PerlLsp.WatcherDebounce
