import Mathlib.Data.Prod.Lex
import PerlLsp.HeapOrder
import PerlLsp.Metered
import PerlLsp.Text

/-! `finalize_tokens_controlled` of
perl-lsp-rs-core/src/providers/semantic_tokens/semantic_tokens.rs: raw tokens are put in
order by a heapsort, overlaps are removed in one pass, and what is left is encoded as
deltas. Every unit of this work is admitted first, and a cancellation, a budget or the
work counter can refuse it. -/
namespace PerlLsp.SemanticFinalize
open Text HeapOrder Metered

/-- `(line, start, length, kind, modifiers)` -/
structure RawSemanticToken where
  line : Nat
  startChar : Nat
  length : Nat
  kind : Nat
  modifiers : Nat
deriving DecidableEq, Repr

/-- `[deltaLine, deltaStartChar, length, tokenTypeIndex, tokenModBits]` -/
structure EncodedToken where
  deltaLine : Nat
  deltaStartChar : Nat
  length : Nat
  tokenTypeIndex : Nat
  tokenModBits : Nat
deriving DecidableEq, Repr

inductive TraversalStop
  | invalidGeometry
  | cancelled
  | budgetExhausted
  | workCounterOverflow
deriving DecidableEq, Repr

/-- The cancellation callback is what it answers when that many units have been admitted. -/
structure SemanticTokensTraversalControl where
  cancellation : Option (Nat → Bool)
  workBudget : Option Nat

/-- A computation on the work counter of a `TraversalState`, under its control. -/
abbrev Traversal := ReaderT SemanticTokensTraversalControl (ExceptT TraversalStop (StateM Nat))

def Traversal.run {α : Type} (traversal : Traversal α) (control : SemanticTokensTraversalControl)
    (workDone : Nat) : Except TraversalStop α × Nat :=
  traversal control workDone

def admitWork : Traversal Unit := fun control workDone =>
  if control.cancellation.any (fun cancelled => cancelled workDone) then
    (.error .cancelled, workDone)
  else if control.workBudget.any (fun budget => budget ≤ workDone) then
    (.error .budgetExhausted, workDone)
  else if workDone + 1 ≤ usizeMax then
    (.ok (), workDone + 1)
  else
    (.error .workCounterOverflow, workDone)

structure IndexedRawToken where
  token : RawSemanticToken
  order : Nat
deriving DecidableEq, Repr

/-- `(u32, u32, usize)`, compared field by field. -/
abbrev Key := Nat ×ₗ Nat ×ₗ Nat

def indexedTokenKey (token : IndexedRawToken) : Key :=
  toLex (token.token.line, toLex (token.token.startChar, token.order))

variable {n : Nat}

/-- The turn of `sift_down`: the root or the child with the largest key. -/
def largestOf (tokens : Vector IndexedRawToken n) (root last : Nat) (bound : last ≤ n)
    (inside : 2 * root + 1 < last) (small : 2 * root + 1 ≤ usizeMax) :
    Traversal { place : Nat // root ≤ place ∧ place < last } := do
  let left := 2 * root + 1
  admitWork
  let largest : { place : Nat // root ≤ place ∧ place < last } :=
    if indexedTokenKey tokens[left] > indexedTokenKey tokens[root] then ⟨left, by omega, by omega⟩
    else ⟨root, by omega, by omega⟩
  let right := min (left + 1) usizeMax
  if below : right < last then
    admitWork
    have := largest.property
    if indexedTokenKey tokens[right] > indexedTokenKey tokens[largest.val] then
      pure ⟨right, by omega, below⟩
    else
      pure largest
  else
    pure largest

def siftDown (tokens : Vector IndexedRawToken n) (root last : Nat) (bound : last ≤ n) :
    Traversal (Vector IndexedRawToken n) :=
  -- `checked_mul` and `checked_add`
  if small : 2 * root + 1 ≤ usizeMax then
    if inside : 2 * root + 1 < last then do
      let largest ← largestOf tokens root last bound inside small
      if settled : largest.val = root then
        pure tokens
      else
        have := largest.property
        admitWork
        siftDown (tokens.swap root largest.val) largest.val last bound
    else
      pure tokens
  else
    pure tokens
termination_by last - root

/-- `for root in (0..length / 2).rev()` -/
def buildHeap (tokens : Vector IndexedRawToken n) : Nat → Traversal (Vector IndexedRawToken n)
  | 0 => pure tokens
  | root + 1 => do
      let tokens ← siftDown tokens root n (Nat.le_refl n)
      buildHeap tokens root

/-- `for end in (1..length).rev()` -/
def drainHeap (tokens : Vector IndexedRawToken n) :
    (last : Nat) → last ≤ n - 1 → Traversal (Vector IndexedRawToken n)
  | 0, _ => pure tokens
  | last + 1, inside => do
      admitWork
      let tokens ← siftDown (tokens.swap 0 (last + 1)) 0 (last + 1) (by omega)
      drainHeap tokens last (by omega)

def controlledSortTokens (tokens : Vector IndexedRawToken n) :
    Traversal (Vector IndexedRawToken n) := do
  let tokens ← buildHeap tokens (n / 2)
  drainHeap tokens (n - 1) (Nat.le_refl _)

/-- The first loop of `finalize_tokens_controlled`. -/
def indexTokens : List RawSemanticToken → List IndexedRawToken → Traversal (List IndexedRawToken)
  | [], indexed => pure indexed
  | token :: rest, indexed => do
      admitWork
      indexTokens rest (indexed ++ [⟨token, indexed.length⟩])

/-- `u32::saturating_add` -/
def saturatingAdd (left right : Nat) : Nat :=
  min (left + right) (2 ^ 32 - 1)

def dedupPush (dedup : List RawSemanticToken) (token : RawSemanticToken) : List RawSemanticToken :=
  match dedup.getLast? with
  | some last =>
    if token.line = last.line ∧ token.startChar < saturatingAdd last.startChar last.length then
      if last.length < token.length then dedup.dropLast ++ [token] else dedup
    else
      dedup ++ [token]
  | none => dedup ++ [token]

/-- The second loop of `finalize_tokens_controlled`. -/
def removeOverlaps : List IndexedRawToken → List RawSemanticToken → Traversal (List RawSemanticToken)
  | [], dedup => pure dedup
  | indexedToken :: rest, dedup => do
      admitWork
      removeOverlaps rest (dedupPush dedup indexedToken.token)

def encodeToken (previousLine previousCharacter : Nat) (token : RawSemanticToken) : EncodedToken :=
  if token.line = previousLine then
    ⟨0, token.startChar - previousCharacter, token.length, token.kind, token.modifiers⟩
  else
    ⟨token.line - previousLine, token.startChar, token.length, token.kind, token.modifiers⟩

/-- The third loop of `finalize_tokens_controlled`. -/
def encodeTokens : List RawSemanticToken → Nat → Nat → List EncodedToken → Traversal (List EncodedToken)
  | [], _, _, encoded => pure encoded
  | token :: rest, previousLine, previousCharacter, encoded => do
      admitWork
      encodeTokens rest token.line token.startChar
        (encoded ++ [encodeToken previousLine previousCharacter token])

def finalizeTokensControlled (astTokens lexerTokens : List RawSemanticToken) :
    Traversal (List EncodedToken) := do
  let indexed ← indexTokens (astTokens ++ lexerTokens) []
  let sorted ← controlledSortTokens (⟨indexed.toArray, rfl⟩ : Vector IndexedRawToken _)
  let dedup ← removeOverlaps sorted.toList []
  encodeTokens dedup 0 0 []

section Admission

theorem run_pure {α : Type} (value : α) (control : SemanticTokensTraversalControl) (workDone : Nat) :
    (pure value : Traversal α).run control workDone = (.ok value, workDone) :=
  rfl

theorem run_bind_ok {α β : Type} {first : Traversal α} {control : SemanticTokensTraversalControl}
    {workDone reached : Nat} {value : α} (next : α → Traversal β)
    (answered : first.run control workDone = (.ok value, reached)) :
    (first >>= next).run control workDone = (next value).run control reached := by
  have unfolded : (first >>= next).run control workDone =
      (ExceptT.bindCont (fun value => next value control) (first.run control workDone).1 :
        StateM Nat _) (first.run control workDone).2 := rfl
  rw [unfolded, answered]
  rfl

theorem run_bind_error {α β : Type} {first : Traversal α} {control : SemanticTokensTraversalControl}
    {workDone reached : Nat} {stop : TraversalStop} (next : α → Traversal β)
    (stopped : first.run control workDone = (.error stop, reached)) :
    (first >>= next).run control workDone = (.error stop, reached) := by
  have unfolded : (first >>= next).run control workDone =
      (ExceptT.bindCont (fun value => next value control) (first.run control workDone).1 :
        StateM Nat _) (first.run control workDone).2 := rfl
  rw [unfolded, stopped]
  rfl

theorem costs_run {α : Type} {run : Traversal α} {units : Nat} {value : α}
    (paid : Costs admitWork run units value) (control : SemanticTokensTraversalControl)
    (workDone : Nat) : (∀ reached, (charge admitWork units).run control workDone = (.ok (), reached) →
      run.run control workDone = (.ok value, reached)) ∧
    ∀ stop reached, (charge admitWork units).run control workDone = (.error stop, reached) →
      run.run control workDone = (.error stop, reached) := by
  have same : run = charge admitWork units >>= fun _ => pure value := paid
  subst same
  constructor
  · intro reached charged
    rw [run_bind_ok _ charged, run_pure]
  · intro stop reached refused
    exact run_bind_error _ refused

variable {control : SemanticTokensTraversalControl}
  (quiet : ∀ cancelled, control.cancellation = some cancelled → ∀ work, cancelled work = false)

include quiet

theorem not_cancelled (workDone : Nat) :
    control.cancellation.any (fun cancelled => cancelled workDone) = false := by
  cases given : control.cancellation with
  | none => rfl
  | some cancelled => exact quiet cancelled given workDone

theorem charge_budgeted {budget : Nat} (budgeted : control.workBudget = some budget)
    (fits : budget ≤ usizeMax) (units workDone : Nat) (started : workDone ≤ budget) :
    (charge admitWork units).run control workDone =
      if workDone + units ≤ budget then (.ok (), workDone + units)
      else (.error .budgetExhausted, budget) := by
  induction units generalizing workDone with
  | zero =>
    rw [if_pos (by omega)]
    exact run_pure _ _ _
  | succ units ih =>
    rw [charge]
    by_cases spent : budget ≤ workDone
    · have same : workDone = budget := by omega
      have refused : admitWork.run control workDone = (.error .budgetExhausted, budget) := by
        simp [Traversal.run, admitWork, not_cancelled quiet, budgeted, same]
      rw [run_bind_error _ refused, if_neg (by omega)]
    · have admitted : admitWork.run control workDone = (.ok (), workDone + 1) := by
        simp [Traversal.run, admitWork, not_cancelled quiet, budgeted, spent]
        omega
      rw [run_bind_ok _ admitted, ih (workDone + 1) (by omega), Nat.add_right_comm,
        Nat.add_assoc workDone units 1]

theorem charge_unlimited (unlimited : control.workBudget = none) (units workDone : Nat)
    (started : workDone ≤ usizeMax) : (charge admitWork units).run control workDone =
      if workDone + units ≤ usizeMax then (.ok (), workDone + units)
      else (.error .workCounterOverflow, usizeMax) := by
  induction units generalizing workDone with
  | zero =>
    rw [if_pos (by omega)]
    exact run_pure _ _ _
  | succ units ih =>
    rw [charge]
    by_cases spent : workDone + 1 ≤ usizeMax
    · have admitted : admitWork.run control workDone = (.ok (), workDone + 1) := by
        simp [Traversal.run, admitWork, not_cancelled quiet, unlimited, spent]
      rw [run_bind_ok _ admitted, ih (workDone + 1) spent, Nat.add_right_comm,
        Nat.add_assoc workDone units 1]
    · have refused : admitWork.run control workDone = (.error .workCounterOverflow, usizeMax) := by
        simp [Traversal.run, admitWork, not_cancelled quiet, unlimited, spent]
        omega
      rw [run_bind_error _ refused, if_neg (by omega)]

end Admission

def rank (tokens : Vector IndexedRawToken n) (place : Nat) : Key :=
  if inside : place < n then indexedTokenKey tokens[place] else toLex (0, toLex (0, 0))

section Sorting
variable {tokens : Vector IndexedRawToken n} {root last : Nat}

theorem rank_inside {place : Nat} (inside : place < n) : rank tokens place = indexedTokenKey tokens[place] :=
  dif_pos inside

theorem rank_swap {left right : Nat} (leftInside : left < n) (rightInside : right < n) :
    rank (tokens.swap left right) = rank tokens ∘ Equiv.swap left right := by
  funext place
  by_cases atLeft : place = left
  · subst atLeft
    simp [rank_inside leftInside, rank_inside rightInside]
  by_cases atRight : place = right
  · subst atRight
    simp [rank_inside leftInside, rank_inside rightInside]
  rw [Function.comp_apply, Equiv.swap_apply_of_ne_of_ne atLeft atRight]
  unfold rank
  split
  next inside => rw [Vector.getElem_swap_of_ne atLeft atRight]
  next => rfl

structure Largest (rank : Nat → Key) (root last place : Nat) : Prop where
  around : place = root ∨ IsChild place root
  root_below : rank root ≤ rank place
  children_below : ∀ child, IsChild child root → child < last → rank child ≤ rank place

theorem largest_left (largest : Nat) (leftInside : 2 * root + 1 < n)
    (chosen : largest = if indexedTokenKey tokens[2 * root + 1] > indexedTokenKey tokens[root]
      then 2 * root + 1 else root) : Largest (rank tokens) root (2 * root + 2) largest := by
  have rootInside : root < n := by omega
  rw [← rank_inside leftInside, ← rank_inside rootInside] at chosen
  have only : ∀ child, IsChild child root → child < 2 * root + 2 → child = 2 * root + 1 := by
    intro child isChild inside
    unfold IsChild at isChild
    omega
  subst chosen
  split
  next larger =>
    refine ⟨Or.inr (Or.inl rfl), le_of_lt larger, ?_⟩
    intro child isChild inside
    rw [only child isChild inside]
  next smaller =>
    refine ⟨Or.inl rfl, le_refl _, ?_⟩
    intro child isChild inside
    rw [only child isChild inside]
    exact not_lt.mp smaller

theorem largest_right {largest right : Nat}
    (chosen : Largest (rank tokens) root (2 * root + 2) largest) (place : right = 2 * root + 2)
    (rightInside : right < n) (largestInside : largest < n) : Largest (rank tokens) root last
      (if indexedTokenKey tokens[right] > indexedTokenKey tokens[largest] then right else largest) := by
  rw [← rank_inside rightInside, ← rank_inside largestInside]
  subst place
  have either : ∀ child, IsChild child root → child < 2 * root + 2 ∨ child = 2 * root + 2 := by
    intro child isChild
    unfold IsChild at isChild
    omega
  split
  next larger =>
    refine ⟨Or.inr (Or.inr rfl), le_trans chosen.root_below (le_of_lt larger), ?_⟩
    intro child isChild _
    rcases either child isChild with left | right
    · exact le_trans (chosen.children_below child isChild left) (le_of_lt larger)
    · rw [right]
  next smaller =>
    refine ⟨chosen.around, chosen.root_below, ?_⟩
    intro child isChild _
    rcases either child isChild with left | right
    · exact chosen.children_below child isChild left
    · rw [right]
      exact not_lt.mp smaller

theorem largest_of_yields (fits : n ≤ usizeMax) (bound : last ≤ n)
    (inside : 2 * root + 1 < last) (small : 2 * root + 1 ≤ usizeMax) :
    Yields admitWork (largestOf tokens root last bound inside small)
      fun largest => Largest (rank tokens) root last largest.val := by
  unfold largestOf
  apply yields_tick
  extract_lets largest right property
  have chosen : Largest (rank tokens) root (2 * root + 2) largest.val := by
    apply largest_left largest.val (by omega)
    simp only [largest]
    split <;> rfl
  have place : right = 2 * root + 2 := by omega
  split
  next below =>
    apply yields_tick
    have both : Largest (rank tokens) root last _ :=
      largest_right chosen place (by omega) (by omega)
    split
    next larger =>
      apply yields_pure
      rwa [if_pos larger] at both
    next smaller =>
      apply yields_pure
      rwa [if_neg smaller] at both
  next beyond =>
    apply yields_pure
    refine ⟨chosen.around, chosen.root_below, ?_⟩
    intro child isChild inside
    exact chosen.children_below child isChild (by omega)

structure Sifted (tokens : Vector IndexedRawToken n) (root last : Nat)
    (sifted : Vector IndexedRawToken n) : Prop where
  perm : sifted.toList.Perm tokens.toList
  shuffled : Shuffled (rank tokens) (rank sifted) last
  heap : ∀ first, first ≤ root → HeapBut (rank tokens) first last root →
    Heap (rank sifted) first last

theorem sifted_settled (largest : Largest (rank tokens) root last root) :
    Sifted tokens root last tokens := by
  refine ⟨List.Perm.refl _, shuffled_refl, ?_⟩
  intro first _ but
  exact hole_filled but largest.children_below

theorem sifted_swapped {child : Nat} (bound : last ≤ n) (childInside : child < last)
    (largest : Largest (rank tokens) root last child)
    {sifted : Vector IndexedRawToken n} (isChild : IsChild child root)
    (rest : Sifted (tokens.swap root child (by have := child_behind isChild; omega) (by omega))
      child last sifted) :
    Sifted tokens root last sifted := by
  have behind := child_behind isChild
  constructor
  · apply rest.perm.trans
    exact (Vector.swap_perm (by omega) (by omega)).toList
  · apply shuffled_trans _ rest.shuffled
    rw [rank_swap (by omega) (by omega)]
    exact shuffled_swap (by omega) childInside
  · intro first from_first but
    apply rest.heap first (by omega)
    rw [rank_swap (by omega) (by omega)]
    exact hole_moves but from_first isChild childInside largest.children_below largest.root_below

theorem sift_down_yields (fits : n ≤ usizeMax) (bound : last ≤ n)
    (tokens : Vector IndexedRawToken n) (root : Nat) :
    Yields admitWork (siftDown tokens root last bound) (Sifted tokens root last) := by
  induction behind : last - root using Nat.strongRecOn generalizing tokens root with
  | ind distance ih =>
    rw [siftDown]
    have childless : last ≤ 2 * root + 1 → Sifted tokens root last tokens := by
      intro beyond
      refine ⟨List.Perm.refl _, shuffled_refl, ?_⟩
      intro first _ but
      apply hole_filled but
      intro child isChild inside
      unfold IsChild at isChild
      omega
    split
    next small =>
      split
      next inside =>
        apply yields_bind (largest_of_yields fits bound inside small)
        intro largest chosen
        split
        next settled =>
          apply yields_pure
          rw [settled] at chosen
          exact sifted_settled chosen
        next moved =>
          have isChild := chosen.around.resolve_left moved
          apply yields_tick
          apply yields_mono (ih (last - largest.val) (by omega) _ largest.val rfl)
          intro sifted rest
          exact sifted_swapped bound largest.property.2 chosen isChild rest
      next outside => exact yields_pure (childless (by omega))
    next large => exact yields_pure (childless (by omega))

theorem build_heap_yields (fits : n ≤ usizeMax) (tokens : Vector IndexedRawToken n) (root : Nat)
    (heap : Heap (rank tokens) root n) : Yields admitWork (buildHeap tokens root) fun built =>
      built.toList.Perm tokens.toList ∧ Heap (rank built) 0 n := by
  induction root generalizing tokens with
  | zero => exact yields_pure ⟨List.Perm.refl _, heap⟩
  | succ root ih =>
    apply yields_bind (sift_down_yields fits (Nat.le_refl n) tokens root)
    intro sifted step
    have wider := step.heap root (Nat.le_refl root) (heap_but_first heap)
    apply yields_mono (ih sifted wider)
    rintro built ⟨perm, whole⟩
    exact ⟨perm.trans step.perm, whole⟩

theorem drain_heap_yields (fits : n ≤ usizeMax) (tokens : Vector IndexedRawToken n) (last : Nat)
    (inside : last ≤ n - 1) (draining : Draining (rank tokens) (last + 1) n) :
    Yields admitWork (drainHeap tokens last inside) fun sorted =>
      sorted.toList.Perm tokens.toList ∧
        ∀ place next, place < next → next < n → rank sorted place ≤ rank sorted next := by
  induction last generalizing tokens with
  | zero => exact yields_pure ⟨List.Perm.refl _, draining_done draining (Nat.le_refl 1)⟩
  | succ last ih =>
    apply yields_tick
    apply yields_bind (sift_down_yields fits _ _ 0)
    intro sifted step
    have swapped := @rank_swap n tokens 0 (last + 1) (by omega) (by omega)
    have but : HeapBut (rank (tokens.swap 0 (last + 1))) 0 (last + 1) 0 := by
      apply heap_but_root draining.heap (by omega)
      intro place positive below
      rw [swapped, Function.comp_apply, Equiv.swap_apply_of_ne_of_ne (by omega) (by omega)]
    have shuffled := step.shuffled
    rw [swapped] at shuffled
    have further := draining_step draining shuffled (step.heap 0 (Nat.le_refl 0) but)
    apply yields_mono (ih sifted (by omega) further)
    rintro sorted ⟨perm, ordered⟩
    refine ⟨perm.trans (step.perm.trans ?_), ordered⟩
    exact (Vector.swap_perm (by omega) (by omega)).toList

/-- The heapsort puts the tokens in the order of their keys. -/
theorem controlled_sort_yields (fits : n ≤ usizeMax) (tokens : Vector IndexedRawToken n) :
    Yields admitWork (controlledSortTokens tokens) fun sorted =>
      sorted.toList.Perm tokens.toList ∧
        sorted.toList.Pairwise fun earlier later => indexedTokenKey earlier ≤ indexedTokenKey later := by
  unfold controlledSortTokens
  apply yields_bind (build_heap_yields fits tokens (n / 2) (heap_back_half (by omega)))
  rintro built ⟨perm, heap⟩
  have draining : Draining (rank built) (n - 1 + 1) n := by
    by_cases empty : n = 0
    · constructor
      · exact heap_back_half (by omega)
      · omega
      · omega
    · rw [Nat.sub_add_cancel (by omega)]
      exact draining_start heap
  apply yields_mono (drain_heap_yields fits built (n - 1) (Nat.le_refl _) draining)
  rintro sorted ⟨permToo, ordered⟩
  refine ⟨permToo.trans perm, ?_⟩
  rw [List.pairwise_iff_getElem]
  intro place next placeInside nextInside before
  rw [Vector.length_toList] at placeInside nextInside
  have le := ordered place next before nextInside
  rw [rank_inside placeInside, rank_inside nextInside] at le
  simpa using le

end Sorting

def indexed (tokens : List RawSemanticToken) : List IndexedRawToken :=
  tokens.zipIdx.map fun pair => ⟨pair.1, pair.2⟩

def Precedes (earlier later : IndexedRawToken) : Prop :=
  earlier.token.line < later.token.line ∨ earlier.token.line = later.token.line ∧
    (earlier.token.startChar < later.token.startChar ∨
      earlier.token.startChar = later.token.startChar ∧ earlier.order < later.order)

section Indexing

theorem index_tokens_yields (tokens : List RawSemanticToken) (done : List IndexedRawToken) :
    Yields admitWork (indexTokens tokens done) fun indexed =>
      indexed = done ++ (tokens.zipIdx done.length).map fun pair => ⟨pair.1, pair.2⟩ := by
  induction tokens generalizing done with
  | nil => exact yields_pure (by simp)
  | cons token rest ih =>
    apply yields_tick
    apply yields_mono (ih _)
    intro indexed reached
    simpa using reached

theorem mem_indexed {tokens : List RawSemanticToken} {item : IndexedRawToken} :
    item ∈ indexed tokens ↔ tokens[item.order]? = some item.token := by
  unfold indexed
  rw [List.mem_map]
  constructor
  · rintro ⟨pair, inside, rfl⟩
    exact List.mem_zipIdx_iff_getElem?.mp inside
  · intro found
    exact ⟨(item.token, item.order), List.mem_zipIdx_iff_getElem?.mpr found, rfl⟩

theorem indexed_order_nodup (tokens : List RawSemanticToken) :
    ((indexed tokens).map fun item => item.order).Nodup := by
  have orders : (indexed tokens).map (fun item => item.order) = List.range' 0 tokens.length := by
    rw [indexed, List.map_map, ← List.zipIdx_map_snd]
    rfl
  rw [orders]
  exact List.nodup_range'

theorem precedes_of_key {earlier later : IndexedRawToken}
    (ordered : indexedTokenKey earlier ≤ indexedTokenKey later)
    (distinct : earlier.order ≠ later.order) : Precedes earlier later := by
  unfold indexedTokenKey at ordered
  rw [Prod.Lex.toLex_le_toLex, Prod.Lex.toLex_le_toLex] at ordered
  unfold Precedes
  omega

/-- What the sort makes of the indexed tokens: the same ones, strictly in order. -/
theorem sorted_precedes {tokens : List RawSemanticToken} {sorted : List IndexedRawToken}
    (perm : sorted.Perm (indexed tokens))
    (ordered : sorted.Pairwise fun earlier later => indexedTokenKey earlier ≤ indexedTokenKey later) :
    sorted.Pairwise Precedes := by
  have distinct : (sorted.map fun item => item.order).Nodup :=
    ((perm.map _).nodup_iff).mpr (indexed_order_nodup tokens)
  have apart : sorted.Pairwise fun earlier later => earlier.order ≠ later.order :=
    List.pairwise_map.mp distinct
  exact (ordered.and apart).imp fun both => precedes_of_key both.1 both.2

end Indexing

def RawSemanticToken.stop (token : RawSemanticToken) : Nat :=
  token.startChar + token.length

def Before (earlier later : RawSemanticToken) : Prop :=
  earlier.line < later.line ∨ earlier.line = later.line ∧ earlier.stop ≤ later.startChar

/-- The span of the one lies inside the span of the other. -/
def Within (inner outer : RawSemanticToken) : Prop :=
  inner.line = outer.line ∧ outer.startChar ≤ inner.startChar ∧ inner.stop ≤ outer.stop

def NestedOrDisjoint (left right : RawSemanticToken) : Prop :=
  left.line = right.line →
    left.stop ≤ right.startChar ∨ right.stop ≤ left.startChar ∨ Within left right ∨ Within right left

/-- The one takes the other's place: it is longer and contains it, or has its span and comes first.
-/
def Shadows (outer inner : IndexedRawToken) : Prop :=
  Within inner.token outer.token ∧ (inner.token.length < outer.token.length ∨
    inner.token.length = outer.token.length ∧ outer.order < inner.order)

/-- The tokens are drawn, and their ends fit a `u32`. -/
def Drawn (tokens : List RawSemanticToken) : Prop :=
  ∀ token ∈ tokens, 0 < token.length ∧ token.startChar + token.length < 2 ^ 32

structure Sweep (seen kept : List IndexedRawToken) : Prop where
  among : ∀ item ∈ kept, item ∈ seen
  apart : kept.Pairwise fun earlier later => Before earlier.token later.token

structure Outer (seen kept : List IndexedRawToken) : Prop where
  covered : ∀ item ∈ seen, ∃ outer ∈ kept, Within item.token outer.token
  clear : ∀ item ∈ kept, ∀ other ∈ seen, ¬ Shadows other item

section Sweeping
variable {seen kept front : List IndexedRawToken} {last item : IndexedRawToken}

theorem dedup_push_concat (front : List RawSemanticToken) (last token : RawSemanticToken)
    (drawn : last.startChar + last.length < 2 ^ 32) : dedupPush (front ++ [last]) token =
      if token.line = last.line ∧ token.startChar < last.stop then
        if last.length < token.length then front ++ [token] else front ++ [last]
      else front ++ [last] ++ [token] := by
  have noWrap : saturatingAdd last.startChar last.length = last.stop := by
    unfold saturatingAdd RawSemanticToken.stop
    omega
  simp [dedupPush, noWrap]

theorem within_trans {inner middle outer : RawSemanticToken} (first : Within inner middle)
    (second : Within middle outer) : Within inner outer := by
  unfold Within at *
  omega

theorem not_shadows_itself (item : IndexedRawToken) : ¬ Shadows item item := by
  unfold Shadows
  omega

structure Turn (seen front : List IndexedRawToken) (last item : IndexedRawToken) : Prop where
  sweep : Sweep seen (front ++ [last])
  ordered : ∀ other ∈ seen, Precedes other item
  positive : ∀ other ∈ seen, 0 < other.token.length
  item_positive : 0 < item.token.length

section Turn
variable (turn : Turn seen front last item)
include turn

theorem Turn.last_seen : last ∈ seen :=
  turn.sweep.among last (by simp)

variable {other : IndexedRawToken}

theorem Turn.front_seen (inFront : other ∈ front) : other ∈ seen :=
  turn.sweep.among other (by simp [inFront])

theorem Turn.front_before (inFront : other ∈ front) : Before other.token last.token :=
  (List.pairwise_append.mp turn.sweep.apart).2.2 other inFront last (by simp)

theorem Turn.front_ends (inFront : other ∈ front) : Before other.token item.token := by
  have before := turn.front_before inFront
  have next := turn.ordered last turn.last_seen
  unfold Before Precedes at *
  omega

theorem Turn.appended
    (free : ¬ (item.token.line = last.token.line ∧ item.token.startChar < last.token.stop)) :
    Sweep (seen ++ [item]) (front ++ [last] ++ [item]) := by
  constructor
  · intro other inside
    rcases List.mem_append.mp inside with old | new
    · exact List.mem_append_left _ (turn.sweep.among other old)
    · exact List.mem_append_right _ new
  · rw [List.pairwise_append]
    refine ⟨turn.sweep.apart, List.pairwise_singleton _ _, ?_⟩
    intro other inside same isItem
    rw [List.mem_singleton.mp isItem]
    rcases List.mem_append.mp inside with inFront | isLast
    · exact turn.front_ends inFront
    rw [List.mem_singleton.mp isLast]
    have next := turn.ordered last turn.last_seen
    unfold Precedes at next
    unfold Before
    omega

theorem Turn.appended_outer (outer : Outer seen (front ++ [last]))
    (free : ¬ (item.token.line = last.token.line ∧ item.token.startChar < last.token.stop)) :
    Outer (seen ++ [item]) (front ++ [last] ++ [item]) := by
  have itemPositive := turn.item_positive
  -- no kept token reaches into the item
  have ends : ∀ other ∈ front ++ [last], other.token.line = item.token.line →
      other.token.stop ≤ item.token.startChar := by
    intro other inside sameLine
    rcases List.mem_append.mp inside with inFront | isLast
    · have before := turn.front_ends inFront
      unfold Before at before
      omega
    · rw [List.mem_singleton.mp isLast] at sameLine ⊢
      omega
  constructor
  · intro other inside
    rcases List.mem_append.mp inside with old | new
    · obtain ⟨cover, kept, within⟩ := outer.covered other old
      exact ⟨cover, List.mem_append_left _ kept, within⟩
    · refine ⟨item, by simp, ?_⟩
      rw [List.mem_singleton.mp new]
      exact ⟨rfl, Nat.le_refl _, Nat.le_refl _⟩
  · intro kept keptInside other otherInside shadows
    rcases List.mem_append.mp keptInside with keptOld | keptNew
    · rcases List.mem_append.mp otherInside with old | new
      · exact outer.clear kept keptOld other old shadows
      rw [List.mem_singleton.mp new] at shadows
      have positive := turn.positive kept (turn.sweep.among kept keptOld)
      have stops := ends kept keptOld shadows.1.1
      have starts := shadows.1.2.1
      unfold RawSemanticToken.stop at stops
      omega
    · rw [List.mem_singleton.mp keptNew] at shadows
      rcases List.mem_append.mp otherInside with old | new
      · obtain ⟨cover, inside, within⟩ := outer.covered other old
        have through := within_trans shadows.1 within
        have stops := ends cover inside through.1.symm
        have reach := through.2.2
        unfold RawSemanticToken.stop at stops reach
        omega
      · rw [List.mem_singleton.mp new] at shadows
        exact not_shadows_itself item shadows

theorem Turn.replaced : Sweep (seen ++ [item]) (front ++ [item]) := by
  constructor
  · intro other inside
    rcases List.mem_append.mp inside with inFront | new
    · exact List.mem_append_left _ (turn.front_seen inFront)
    · exact List.mem_append_right _ new
  · rw [List.pairwise_append]
    refine ⟨(List.pairwise_append.mp turn.sweep.apart).1, List.pairwise_singleton _ _, ?_⟩
    intro other inFront same isItem
    rw [List.mem_singleton.mp isItem]
    exact turn.front_ends inFront

theorem Turn.replaced_outer (outer : Outer seen (front ++ [last]))
    (sameLine : item.token.line = last.token.line) (reaches : item.token.startChar < last.token.stop)
    (longer : last.token.length < item.token.length) (nested : NestedOrDisjoint last.token item.token) :
    Outer (seen ++ [item]) (front ++ [item]) := by
  have next := turn.ordered last turn.last_seen
  have within : Within last.token item.token := by
    have shapes := nested sameLine.symm
    unfold Within Precedes RawSemanticToken.stop at *
    omega
  constructor
  · intro other inside
    rcases List.mem_append.mp inside with old | new
    · obtain ⟨cover, kept, through⟩ := outer.covered other old
      rcases List.mem_append.mp kept with inFront | isLast
      · exact ⟨cover, List.mem_append_left _ inFront, through⟩
      · rw [List.mem_singleton.mp isLast] at through
        exact ⟨item, by simp, within_trans through within⟩
    · refine ⟨item, by simp, ?_⟩
      rw [List.mem_singleton.mp new]
      exact ⟨rfl, Nat.le_refl _, Nat.le_refl _⟩
  · intro kept keptInside other otherInside shadows
    rcases List.mem_append.mp keptInside with inFront | keptNew
    · rcases List.mem_append.mp otherInside with old | new
      · exact outer.clear kept (List.mem_append_left _ inFront) other old shadows
      rw [List.mem_singleton.mp new] at shadows
      have positive := turn.positive kept (turn.front_seen inFront)
      have ends := turn.front_ends inFront
      unfold Shadows Within Before RawSemanticToken.stop at *
      omega
    · rw [List.mem_singleton.mp keptNew] at shadows
      rcases List.mem_append.mp otherInside with old | new
      · apply outer.clear last (by simp) other old
        refine ⟨within_trans within shadows.1, Or.inl ?_⟩
        have noShorter := shadows.2
        omega
      · rw [List.mem_singleton.mp new] at shadows
        exact not_shadows_itself item shadows

theorem Turn.dropped : Sweep (seen ++ [item]) (front ++ [last]) := by
  constructor
  · intro other inside
    exact List.mem_append_left _ (turn.sweep.among other inside)
  · exact turn.sweep.apart

theorem Turn.dropped_outer (outer : Outer seen (front ++ [last]))
    (sameLine : item.token.line = last.token.line) (reaches : item.token.startChar < last.token.stop)
    (shorter : ¬ last.token.length < item.token.length)
    (nested : NestedOrDisjoint last.token item.token) : Outer (seen ++ [item]) (front ++ [last]) := by
  have next := turn.ordered last turn.last_seen
  have within : Within item.token last.token := by
    have shapes := nested sameLine.symm
    unfold Within Precedes RawSemanticToken.stop at *
    omega
  constructor
  · intro other inside
    rcases List.mem_append.mp inside with old | new
    · exact outer.covered other old
    · refine ⟨last, by simp, ?_⟩
      rwa [List.mem_singleton.mp new]
  · intro kept keptInside other otherInside shadows
    rcases List.mem_append.mp otherInside with old | new
    · exact outer.clear kept keptInside other old shadows
    rw [List.mem_singleton.mp new] at shadows
    rcases List.mem_append.mp keptInside with inFront | isLast
    · have positive := turn.positive kept (turn.front_seen inFront)
      have ends := turn.front_ends inFront
      unfold Shadows Within Before RawSemanticToken.stop at *
      omega
    · rw [List.mem_singleton.mp isLast] at shadows
      unfold Shadows Within Precedes at *
      omega

end Turn

theorem sweep_step (sweep : Sweep seen kept) (ordered : ∀ other ∈ seen, Precedes other item)
    (drawn : Drawn ((seen ++ [item]).map fun item => item.token)) :
    ∃ after, dedupPush (kept.map fun item => item.token) item.token =
        after.map (fun item => item.token) ∧ Sweep (seen ++ [item]) after ∧
      (Outer seen kept → (∀ other ∈ seen, NestedOrDisjoint other.token item.token) →
        Outer (seen ++ [item]) after) := by
  have drawnItem : ∀ other ∈ seen ++ [item], 0 < other.token.length ∧
      other.token.startChar + other.token.length < 2 ^ 32 := by
    intro other inside
    exact drawn other.token (List.mem_map_of_mem inside)
  rcases List.eq_nil_or_concat kept with empty | ⟨front, last, same⟩
  · subst empty
    refine ⟨[item], rfl, ⟨by simp, List.pairwise_singleton _ _⟩, ?_⟩
    intro outer _
    have nothing : seen = [] := by
      rw [List.eq_nil_iff_forall_not_mem]
      intro other inside
      obtain ⟨_, none, _⟩ := outer.covered other inside
      cases none
    subst nothing
    constructor
    · intro other inside
      refine ⟨item, by simp, ?_⟩
      rw [List.mem_singleton.mp inside]
      exact ⟨rfl, Nat.le_refl _, Nat.le_refl _⟩
    · intro other inside further furtherInside shadows
      rw [List.mem_singleton.mp inside, List.mem_singleton.mp furtherInside] at shadows
      exact not_shadows_itself item shadows
  · rw [List.concat_eq_append] at same
    subst same
    have turn : Turn seen front last item :=
      ⟨sweep, ordered, fun other inside => (drawnItem other (List.mem_append_left _ inside)).1,
        (drawnItem item (by simp)).1⟩
    have noWrap := (drawnItem last (List.mem_append_left _ turn.last_seen)).2
    rw [List.map_append, List.map_singleton, dedup_push_concat _ _ _ noWrap]
    split
    next overlaps =>
      split
      next longer =>
        refine ⟨front ++ [item], by simp, turn.replaced, ?_⟩
        intro outer nested
        exact turn.replaced_outer outer overlaps.1 overlaps.2 longer (nested last turn.last_seen)
      next shorter =>
        refine ⟨front ++ [last], by simp, turn.dropped, ?_⟩
        intro outer nested
        exact turn.dropped_outer outer overlaps.1 overlaps.2 shorter (nested last turn.last_seen)
    next free =>
      refine ⟨front ++ [last] ++ [item], by simp, turn.appended free, ?_⟩
      intro outer _
      exact turn.appended_outer outer free

theorem remove_overlaps_yields (rest : List IndexedRawToken) (sweep : Sweep seen kept)
    (ordered : (seen ++ rest).Pairwise Precedes)
    (drawn : Drawn ((seen ++ rest).map fun item => item.token)) :
    Yields admitWork (removeOverlaps rest (kept.map fun item => item.token)) fun dedup =>
      ∃ final, dedup = final.map (fun item => item.token) ∧ Sweep (seen ++ rest) final ∧ (Outer seen kept →
          ((seen ++ rest).Pairwise fun left right => NestedOrDisjoint left.token right.token) →
            Outer (seen ++ rest) final) := by
  induction rest generalizing seen kept with
  | nil =>
    apply yields_pure
    rw [List.append_nil]
    exact ⟨kept, rfl, sweep, fun outer _ => outer⟩
  | cons item rest ih =>
    have split : seen ++ item :: rest = (seen ++ [item]) ++ rest := by simp
    rw [split] at ordered drawn ⊢
    have before := (List.pairwise_append.mp (List.pairwise_append.mp ordered).1).2.2
    have drawnFront : Drawn ((seen ++ [item]).map fun item => item.token) := by
      intro token inside
      apply drawn token
      rw [List.map_append]
      exact List.mem_append_left _ inside
    obtain ⟨after, pushed, stepped, outermost⟩ :=
      sweep_step sweep (fun other inside => before other inside item (by simp)) drawnFront
    apply yields_tick
    rw [pushed]
    apply yields_mono (ih stepped ordered drawn)
    rintro dedup ⟨final, same, swept, reached⟩
    refine ⟨final, same, swept, ?_⟩
    intro outer nested
    have nestedFront := (List.pairwise_append.mp (List.pairwise_append.mp nested).1).2.2
    exact reached (outermost outer fun other inside => nestedFront other inside item (by simp)) nested

end Sweeping

def decodeTokens : (line character : Nat) → List EncodedToken → List RawSemanticToken
  | _, _, [] => []
  | line, character, token :: rest =>
    let startChar :=
      if token.deltaLine = 0 then character + token.deltaStartChar else token.deltaStartChar
    ⟨line + token.deltaLine, startChar, token.length, token.tokenTypeIndex, token.tokenModBits⟩ ::
      decodeTokens (line + token.deltaLine) startChar rest

section Encoding

def StartsFrom (line character : Nat) (token : RawSemanticToken) : Prop :=
  line < token.line ∨ line = token.line ∧ character ≤ token.startChar

theorem decode_encode {line character : Nat} {token : RawSemanticToken}
    (behind : StartsFrom line character token) (rest : List EncodedToken) :
    decodeTokens line character (encodeToken line character token :: rest) =
      token :: decodeTokens token.line token.startChar rest := by
  unfold StartsFrom at behind
  unfold encodeToken
  split
  next same =>
    have start : character + (token.startChar - character) = token.startChar := by omega
    subst same
    simp [decodeTokens, start]
  next other =>
    have further : token.line - line ≠ 0 := by omega
    have reached : line + (token.line - line) = token.line := by omega
    simp [decodeTokens, further, reached]

/-- Decoding what the last loop encodes gives the tokens back. -/
theorem encode_tokens_yields (tokens : List RawSemanticToken) (line character : Nat)
    (encoded : List EncodedToken) (ordered : tokens.Pairwise Before)
    (behind : ∀ token ∈ tokens, StartsFrom line character token) :
    Yields admitWork (encodeTokens tokens line character encoded) fun result =>
      ∃ more, result = encoded ++ more ∧ decodeTokens line character more = tokens := by
  induction tokens generalizing line character encoded with
  | nil => exact yields_pure ⟨[], by simp, rfl⟩
  | cons token rest ih =>
    obtain ⟨before, orderedRest⟩ := List.pairwise_cons.mp ordered
    have behindRest : ∀ later ∈ rest, StartsFrom token.line token.startChar later := by
      intro later inside
      have next := before later inside
      unfold Before RawSemanticToken.stop at next
      unfold StartsFrom
      omega
    apply yields_tick
    apply yields_mono (ih _ _ _ orderedRest behindRest)
    rintro result ⟨more, rfl, decoded⟩
    refine ⟨encodeToken line character token :: more, by simp, ?_⟩
    rw [decode_encode (behind token (by simp)), decoded]

end Encoding

def Outermost (tokens : List RawSemanticToken) (place : Nat) (token : RawSemanticToken) : Prop :=
  ∀ other outer, tokens[other]? = some outer → Within token outer →
    outer.length ≤ token.length ∧ (outer.length = token.length → place ≤ other)

structure Finalized (tokens decoded : List RawSemanticToken) : Prop where
  among : ∀ token ∈ decoded, token ∈ tokens
  increasing : decoded.Pairwise fun earlier later =>
    earlier.line < later.line ∨ earlier.line = later.line ∧ earlier.startChar < later.startChar
  disjoint : decoded.Pairwise fun earlier later =>
    earlier.line = later.line → earlier.stop ≤ later.startChar
  outermost : (∀ left ∈ tokens, ∀ right ∈ tokens, NestedOrDisjoint left right) →
    ∀ token, token ∈ decoded ↔ ∃ place, tokens[place]? = some token ∧ Outermost tokens place token

section Finalizing
variable {tokens : List RawSemanticToken}

theorem shadows_iff {item outer : IndexedRawToken} (inside : Within item.token outer.token) :
    ¬ Shadows outer item ↔ outer.token.length ≤ item.token.length ∧
      (outer.token.length = item.token.length → item.order ≤ outer.order) := by
  constructor
  · intro clear
    have notLonger : ¬ item.token.length < outer.token.length :=
      fun longer => clear ⟨inside, Or.inl longer⟩
    refine ⟨Nat.le_of_not_lt notLonger, fun same => Nat.le_of_not_lt fun first => ?_⟩
    exact clear ⟨inside, Or.inr ⟨same.symm, first⟩⟩
  · rintro ⟨noLonger, first⟩ ⟨-, longer⟩
    omega

/-- The kept tokens are those that nothing takes the place of. -/
theorem outer_exact {seen kept : List IndexedRawToken} (perm : seen.Perm (indexed tokens))
    (sweep : Sweep seen kept) (outer : Outer seen kept) (token : RawSemanticToken) :
    token ∈ kept.map (fun item => item.token) ↔
      ∃ place, tokens[place]? = some token ∧ Outermost tokens place token := by
  have seen_iff : ∀ item, item ∈ seen ↔ tokens[item.order]? = some item.token := by
    intro item
    rw [perm.mem_iff, mem_indexed]
  rw [List.mem_map]
  constructor
  · rintro ⟨item, inside, rfl⟩
    refine ⟨item.order, (seen_iff item).mp (sweep.among item inside), ?_⟩
    intro other cover found within
    have clear := outer.clear item inside ⟨cover, other⟩ ((seen_iff ⟨cover, other⟩).mpr found)
    exact (shadows_iff within).mp clear
  · rintro ⟨place, found, first⟩
    have given : ⟨token, place⟩ ∈ seen := (seen_iff ⟨token, place⟩).mpr found
    obtain ⟨cover, kept, within⟩ := outer.covered ⟨token, place⟩ given
    have within : Within token cover.token := within
    have coverFound := (seen_iff cover).mp (sweep.among cover kept)
    obtain ⟨noLonger, tie⟩ := first cover.order cover.token coverFound within
    have sameLength : cover.token.length = token.length := by
      unfold Within RawSemanticToken.stop at within
      omega
    have back : Within cover.token token := by
      unfold Within RawSemanticToken.stop at *
      omega
    have clear : ¬ Shadows ⟨token, place⟩ cover := outer.clear cover kept ⟨token, place⟩ given
    have after : cover.order ≤ place := ((shadows_iff back).mp clear).2 sameLength.symm
    have samePlace : place = cover.order := Nat.le_antisymm (tie sameLength) after
    rw [samePlace, coverFound] at found
    exact ⟨cover, kept, Option.some.inj found⟩

theorem drawn_perm {seen : List IndexedRawToken} (perm : seen.Perm (indexed tokens))
    (drawn : Drawn tokens) : Drawn (seen.map fun item => item.token) := by
  intro token inside
  obtain ⟨item, found, rfl⟩ := List.mem_map.mp inside
  exact drawn item.token (List.mem_of_getElem? (mem_indexed.mp (perm.mem_iff.mp found)))

/-- What the whole of `finalize_tokens_controlled` computes, whatever its work costs. -/
theorem finalize_yields (astTokens lexerTokens : List RawSemanticToken)
    (fits : astTokens.length + lexerTokens.length ≤ usizeMax) (drawn : Drawn (astTokens ++ lexerTokens)) :
    Yields admitWork (finalizeTokensControlled astTokens lexerTokens) fun encoded =>
      Finalized (astTokens ++ lexerTokens) (decodeTokens 0 0 encoded) := by
  generalize whole : astTokens ++ lexerTokens = tokens at drawn
  have few : tokens.length ≤ usizeMax := by
    rw [← whole, List.length_append]
    exact fits
  unfold finalizeTokensControlled
  rw [whole]
  apply yields_bind (index_tokens_yields tokens [])
  intro list isIndexed
  have listed : list = indexed tokens := by simpa [indexed] using isIndexed
  subst listed
  have length : (indexed tokens).toArray.size ≤ usizeMax := by simpa [indexed] using few
  apply yields_bind (controlled_sort_yields length _)
  rintro sorted ⟨perm, ordered⟩
  have perm : sorted.toList.Perm (indexed tokens) := perm
  have precedes := sorted_precedes perm ordered
  have start : Sweep [] [] := by
    constructor
    · intro item none
      cases none
    · exact List.Pairwise.nil
  apply yields_bind (remove_overlaps_yields sorted.toList start precedes (drawn_perm perm drawn))
  rintro dedup ⟨kept, same, sweep, outermost⟩
  subst same
  rw [List.nil_append] at sweep outermost
  have apart : (kept.map fun item => item.token).Pairwise Before := List.pairwise_map.mpr sweep.apart
  have seenToken : ∀ item ∈ sorted.toList, item.token ∈ tokens := by
    intro item inside
    exact List.mem_of_getElem? (mem_indexed.mp (perm.mem_iff.mp inside))
  have among : ∀ token ∈ kept.map (fun item => item.token), token ∈ tokens := by
    intro token inside
    obtain ⟨item, keptItem, rfl⟩ := List.mem_map.mp inside
    exact seenToken item (sweep.among item keptItem)
  have positive : ∀ token ∈ kept.map (fun item => item.token), 0 < token.length :=
    fun token inside => (drawn token (among token inside)).1
  have origin : ∀ token ∈ kept.map (fun item => item.token), StartsFrom 0 0 token := by
    intro token _
    unfold StartsFrom
    omega
  apply yields_mono (encode_tokens_yields _ 0 0 [] apart origin)
  rintro encoded ⟨more, same, decoded⟩
  rw [List.nil_append] at same
  rw [same, decoded]
  constructor
  · exact among
  · apply apart.imp_of_mem
    intro earlier later inside _ before
    have drawnEarlier := positive earlier inside
    unfold Before RawSemanticToken.stop at before
    omega
  · apply apart.imp
    intro earlier later before sameLine
    unfold Before at before
    omega
  · intro nested token
    have outer : Outer sorted.toList kept := by
      have fresh : Outer [] [] := by
        constructor
        · intro item none
          cases none
        · intro item none
          cases none
      apply outermost fresh
      apply precedes.imp_of_mem
      intro left right leftInside rightInside _
      exact nested left.token (seenToken left leftInside) right.token (seenToken right rightInside)
    exact outer_exact perm sweep outer token

/-- For all tokens drawn there is a work and a result, which decodes to the outermost tokens in
order; a run that completes answers it; a run without budget does all the work, and one with a
budget does it if that allows and else stops when it is spent. -/
theorem finalize_tokens_exact (astTokens lexerTokens : List RawSemanticToken)
    (fits : astTokens.length + lexerTokens.length ≤ usizeMax)
    (drawn : Drawn (astTokens ++ lexerTokens)) :
    ∃ work encoded, Finalized (astTokens ++ lexerTokens) (decodeTokens 0 0 encoded) ∧
      (∀ control workDone result reached,
        (finalizeTokensControlled astTokens lexerTokens).run control workDone =
          (.ok result, reached) → result = encoded) ∧
      ∀ control : SemanticTokensTraversalControl,
        (∀ cancelled, control.cancellation = some cancelled → ∀ work, cancelled work = false) →
        (control.workBudget = none → ∀ workDone, workDone ≤ usizeMax →
          (finalizeTokensControlled astTokens lexerTokens).run control workDone =
            if workDone + work ≤ usizeMax then (.ok encoded, workDone + work)
            else (.error .workCounterOverflow, usizeMax)) ∧
        ∀ budget, control.workBudget = some budget → budget ≤ usizeMax →
          ∀ workDone, workDone ≤ budget →
            (finalizeTokensControlled astTokens lexerTokens).run control workDone =
              if workDone + work ≤ budget then (.ok encoded, workDone + work)
              else (.error .budgetExhausted, budget) := by
  obtain ⟨work, encoded, paid, finalized⟩ := finalize_yields astTokens lexerTokens fits drawn
  refine ⟨work, encoded, finalized, ?_, ?_⟩
  · intro control workDone result reached answered
    obtain ⟨completes, stops⟩ := costs_run paid control workDone
    cases charged : (charge admitWork work).run control workDone with
    | mk answer there =>
      cases answer with
      | ok _ =>
        rw [completes there charged] at answered
        exact (Except.ok.inj (Prod.mk.inj answered).1).symm
      | error stop =>
        rw [stops stop there charged] at answered
        cases (Prod.mk.inj answered).1
  · intro control quiet
    constructor
    · intro unlimited workDone started
      have charged := charge_unlimited quiet unlimited work workDone started
      obtain ⟨completes, stops⟩ := costs_run paid control workDone
      split at charged
      next enough => rw [if_pos enough, completes _ charged]
      next short => rw [if_neg short, stops _ _ charged]
    · intro budget budgeted fitting workDone started
      have charged := charge_budgeted quiet budgeted fitting work workDone started
      obtain ⟨completes, stops⟩ := costs_run paid control workDone
      split at charged
      next enough => rw [if_pos enough, completes _ charged]
      next short => rw [if_neg short, stops _ _ charged]

/-- Equal spans of both collectors, a longer token over them, and one on the next line. -/
theorem finalize_tokens_sample :
    ∃ work encoded, Finalized ([⟨0, 0, 5, 7, 3⟩, ⟨0, 8, 2, 11, 0⟩] ++
        [⟨0, 0, 5, 13, 0⟩, ⟨0, 4, 7, 16, 0⟩, ⟨1, 2, 3, 17, 0⟩]) (decodeTokens 0 0 encoded) ∧
      (finalizeTokensControlled [⟨0, 0, 5, 7, 3⟩, ⟨0, 8, 2, 11, 0⟩]
        [⟨0, 0, 5, 13, 0⟩, ⟨0, 4, 7, 16, 0⟩, ⟨1, 2, 3, 17, 0⟩]).run ⟨none, some 100⟩ 0 =
          if work ≤ 100 then (.ok encoded, work) else (.error .budgetExhausted, 100) := by
  obtain ⟨work, encoded, finalized, -, runs⟩ :=
    finalize_tokens_exact [⟨0, 0, 5, 7, 3⟩, ⟨0, 8, 2, 11, 0⟩]
      [⟨0, 0, 5, 13, 0⟩, ⟨0, 4, 7, 16, 0⟩, ⟨1, 2, 3, 17, 0⟩] (by decide) (by simp [Drawn])
  have budgeted := (runs ⟨none, some 100⟩ (fun _ none => nomatch none)).2 100 rfl (by decide) 0
    (by decide)
  rw [Nat.zero_add] at budgeted
  exact ⟨work, encoded, finalized, budgeted⟩

end Finalizing

end PerlLsp.SemanticFinalize
