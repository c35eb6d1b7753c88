import PerlLsp.Runs
import PerlLsp.Tables
import PerlLsp.UnderWay

/-! The cancellation registry of cancellation/mod.rs: tokens under request ids, a cache of them for
lookups, and cleanup contexts, each behind its own lock. A step is one critical section, and calls
interleave. A lookup that found a token keeps the lock on the tokens while it fills the cache. -/
namespace PerlLsp.CancellationRegistry
open List hiding getElem?_insert
open Std Tables Runs UnderWay

structure Token (Id : Type) where
  requestId : Id
  provider : String
  flag : Nat
deriving DecidableEq

def maxCacheSize : Nat := 100

structure Registry (Id Context : Type) [Ord Id] where
  tokens : TreeMap Id (Token Id)
  tokenCache : TreeMap Id (Token Id)
  cleanupContexts : TreeMap Id Context
  cancelled : List Nat

variable {Id Context : Type} [Ord Id]

namespace Registry

def new : Registry Id Context := ⟨∅, ∅, ∅, []⟩

variable (r : Registry Id Context)

def isCancelledRelaxed (token : Token Id) : Bool :=
  r.cancelled.contains token.flag

/-- The critical section of `cancel_request` on the tokens. -/
def cancelToken (id : Id) : Registry Id Context :=
  match r.tokens[id]? with
  | some token => { r with cancelled := token.flag :: r.cancelled }
  | none => r

/-- What `get_token` does when it gets the write lock of the cache. -/
def fillCache (id : Id) (token : Token Id) : Registry Id Context :=
  let cache := if maxCacheSize ≤ r.tokenCache.size then ∅ else r.tokenCache
  { r with tokenCache := cache.insert id token }

end Registry

/-- Where a call of `register_token` or `remove_request` stands. -/
inductive WriterStage (Id : Type) where
  | evict (token : Token Id)
  | insert (token : Token Id)
  | removeTokens
  | removeCache
  | removeContexts
deriving DecidableEq

/-- A call that changes what is registered under an id, with whether no other such call for the id
was under way. -/
structure Writer (Id : Type) where
  id : Id
  alone : Bool
  stage : WriterStage Id
deriving DecidableEq

/-- Where a call of `cancel_request`, `get_token` or `is_cancelled` stands. -/
inductive Reader (Id : Type) where
  | cancel (id : Id)
  | cleanup (id : Id)
  | lookCache (id : Id)
  | lookTokens (id : Id)
  | fill (id : Id) (token : Token Id)
  | checkCache (id : Id)
  | checkTokens (id : Id)
deriving DecidableEq

inductive Answer (Id Context : Type) where
  | context (id : Id) (context : Option Context)
  | token (id : Id) (token : Option (Token Id))
  | cancelled (id : Id) (cancelled : Bool)

inductive Progress (Id Context : Type) where
  | returns (answer : Answer Id Context)
  | goesOn (reader : Reader Id)

def Reader.holdsTokens : Reader Id → Bool
  | .fill .. => true
  | .cancel _ => false
  | .cleanup _ => false
  | .lookCache _ => false
  | .lookTokens _ => false
  | .checkCache _ => false
  | .checkTokens _ => false

/-- The next critical section of a call; `lock` tells whether its try-lock succeeds. -/
def Reader.next (r : Registry Id Context) (lock : Bool) :
    Reader Id → Registry Id Context × Progress Id Context
  | .cancel id => (r.cancelToken id, .goesOn (.cleanup id))
  | .cleanup id =>
    ({ r with cleanupContexts := r.cleanupContexts.erase id },
      .returns (.context id r.cleanupContexts[id]?))
  | .lookCache id =>
    match r.tokenCache[id]? with
    | some token => (r, .returns (.token id (some token)))
    | none => (r, .goesOn (.lookTokens id))
  | .lookTokens id =>
    match r.tokens[id]? with
    | some token => (r, .goesOn (.fill id token))
    | none => (r, .returns (.token id none))
  | .fill id token =>
    (if lock then r.fillCache id token else r, .returns (.token id (some token)))
  | .checkCache id =>
    match if lock then r.tokenCache[id]? else none with
    | some token => (r, .returns (.cancelled id (r.isCancelledRelaxed token)))
    | none => (r, .goesOn (.checkTokens id))
  | .checkTokens id =>
    (r, .returns (.cancelled id (lock && r.tokens[id]?.any r.isCancelledRelaxed)))

/-- The registry with the calls under way. `standing` is what the last call for an id left there,
known from the return of a call that no other one overlapped to the start of the next one. -/
structure Session (Id Context : Type) [Ord Id] where
  registry : Registry Id Context
  writers : List (Writer Id)
  readers : List (Reader Id)
  standing : TreeMap Id (Option (Token Id))

open Session

def Session.new : Session Id Context := ⟨.new, [], [], ∅⟩

inductive Op (Id Context : Type) where
  | registerToken (token : Token Id)
  | registerCleanup (id : Id) (context : Context)
  | cancelRequest (id : Id)
  | getToken (id : Id)
  | isCancelled (id : Id)
  | removeRequest (id : Id)
  | writer (index : Nat)
  | reader (index : Nat) (lock : Bool)

namespace Session
variable (s : Session Id Context)

def held : Bool := s.readers.any Reader.holdsTokens

variable (index : Nat)
variable (w : Writer Id)

def writerReturns (left : Option (Token Id)) : Session Id Context :=
  { s with
    writers := s.writers.eraseIdx index
    standing := if w.alone then s.standing.insert w.id left else s.standing }

def writerGoesOn (stage : WriterStage Id) : Session Id Context :=
  { s with writers := s.writers.set index { w with stage := stage } }

def stepWriter : Session Id Context :=
  match w.stage with
  | .evict token =>
    { s with registry := { s.registry with
      tokenCache := s.registry.tokenCache.erase w.id } }.writerGoesOn index w (.insert token)
  | .insert token =>
    if s.held then s
    else { s with registry := { s.registry with
      tokens := s.registry.tokens.insert w.id token } }.writerReturns index w (some token)
  | .removeTokens =>
    if s.held then s
    else { s with registry := { s.registry with
      tokens := s.registry.tokens.erase w.id } }.writerGoesOn index w .removeCache
  | .removeCache =>
    { s with registry := { s.registry with
      tokenCache := s.registry.tokenCache.erase w.id } }.writerGoesOn index w .removeContexts
  | .removeContexts =>
    { s with registry := { s.registry with
      cleanupContexts := s.registry.cleanupContexts.erase w.id } }.writerReturns index w none

def stepReader (reader : Reader Id) (lock : Bool) : Session Id Context :=
  let (registry, progress) := reader.next s.registry lock
  { s with
    registry := registry
    readers := match progress with
      | .returns _ => s.readers.eraseIdx index
      | .goesOn reader => s.readers.set index reader }

variable [DecidableEq Id]

def beginWriter (s : Session Id Context) (id : Id) (stage : WriterStage Id) : Session Id Context :=
  { s with
    writers := s.writers.map (fun w => if w.id = id then { w with alone := false } else w) ++
      [⟨id, s.writers.all fun w => w.id ≠ id, stage⟩]
    standing := s.standing.erase id }

def beginReader (s : Session Id Context) (reader : Reader Id) : Session Id Context :=
  { s with readers := s.readers ++ [reader] }

end Session

variable [DecidableEq Id]

/-- A call begins, or one under way takes its next critical section. -/
def step (s : Session Id Context) : Op Id Context → Session Id Context
  | .registerToken token => s.beginWriter token.requestId (.evict token)
  | .registerCleanup id context =>
    { s with registry := { s.registry with
      cleanupContexts := s.registry.cleanupContexts.insert id context } }
  | .cancelRequest id => s.beginReader (.cancel id)
  | .getToken id => s.beginReader (.lookCache id)
  | .isCancelled id => s.beginReader (.checkCache id)
  | .removeRequest id => s.beginWriter id .removeTokens
  | .writer index =>
    match s.writers[index]? with
    | none => s
    | some w => s.stepWriter index w
  | .reader index lock =>
    match s.readers[index]? with
    | none => s
    | some reader => s.stepReader index reader lock

def Session.Clear (s : Session Id Context) (w : Writer Id) : Prop :=
  match w.stage with
  | .insert token => s.held = false → s.registry.tokenCache[w.id]?.all (· == token) = true
  | .evict _ => True
  | .removeTokens => True
  | .removeCache => True
  | .removeContexts => True

instance (s : Session Id Context) (w : Writer Id) : Decidable (s.Clear w) :=
  match w with
  | ⟨_, _, .insert _⟩ => inferInstanceAs (Decidable (_ → _))
  | ⟨_, _, .evict _⟩ => isTrue trivial
  | ⟨_, _, .removeTokens⟩ => isTrue trivial
  | ⟨_, _, .removeCache⟩ => isTrue trivial
  | ⟨_, _, .removeContexts⟩ => isTrue trivial

/-- When `register_token` inserts, the cache holds no other token under the id. -/
def Unfilled (s : Session Id Context) : Op Id Context → Prop
  | .writer index => ∀ w ∈ s.writers[index]?, s.Clear w
  | _ => True

instance (s : Session Id Context) (op : Op Id Context) : Decidable (Unfilled s op) :=
  match op with
  | .writer index => inferInstanceAs (Decidable (∀ w ∈ s.writers[index]?, s.Clear w))
  | .registerToken _ => isTrue trivial
  | .registerCleanup .. => isTrue trivial
  | .cancelRequest _ => isTrue trivial
  | .getToken _ => isTrue trivial
  | .isCancelled _ => isTrue trivial
  | .removeRequest _ => isTrue trivial
  | .reader .. => isTrue trivial

def Writer.claim (w : Writer Id) : Id × Bool := (w.id, w.alone)

def Apart (left right : Id × Bool) : Prop := left.1 = right.1 → left.2 = false ∧ right.2 = false

/-- The state without the accounts: what is cached is registered, or is about to be evicted by a
removal. -/
structure Coherent (s : Session Id Context) : Prop where
  cached : ∀ (id : Id) held current, s.registry.tokenCache[id]? = some held →
    s.registry.tokens[id]? = some current → held = current
  orphan : ∀ (id : Id) held, s.registry.tokenCache[id]? = some held →
    s.registry.tokens[id]? = none → ∃ w ∈ s.writers, w.id = id ∧ w.stage = .removeCache
  filling : ∀ (id : Id) token, .fill id token ∈ s.readers → s.registry.tokens[id]? = some token

structure Standing (s : Session Id Context) : Prop where
  apart : (s.writers.map Writer.claim).Pairwise Apart
  removed : ∀ w ∈ s.writers, w.alone = true →
    w.stage = .removeCache ∨ w.stage = .removeContexts → s.registry.tokens[w.id]? = none
  known : ∀ (id : Id) left, s.standing[id]? = some left →
    s.registry.tokens[id]? = left ∧ ∀ w ∈ s.writers, w.id ≠ id

variable [TransOrd Id] [LawfulEqOrd Id]

omit [Ord Id] [TransOrd Id] [LawfulEqOrd Id] [DecidableEq Id] in
theorem others_apart {writers : List (Writer Id)} {index : Nat} {w other : Writer Id}
    (stands : writers[index]? = some w) (apart : (writers.map Writer.claim).Pairwise Apart)
    (among : other ∈ writers.eraseIdx index) (same : other.id = w.id) :
    w.alone = false ∧ other.alone = false :=
  pairwise_taken Writer.claim (fun left right apart same => (apart same.symm).symm) stands apart
    among same.symm

section
variable (s : Session Id Context)
include s

theorem begin_writer_standing (id : Id) (stage : WriterStage Id)
    (starts : stage ≠ .removeCache ∧ stage ≠ .removeContexts) (standing : Standing s) :
    Standing (s.beginWriter id stage) where
  apart := by
    rw [beginWriter, map_append, pairwise_append]
    refine ⟨?_, pairwise_singleton _ _, ?_⟩
    · rw [map_map]
      refine pairwise_map.mpr ((pairwise_map.mp standing.apart).imp ?_)
      intro left right apart same
      dsimp only [Function.comp_apply, Apart] at apart same ⊢
      by_cases leftIs : left.id = id
      · rw [if_pos leftIs] at same ⊢
        by_cases rightIs : right.id = id
        · rw [if_pos rightIs]
          exact ⟨rfl, rfl⟩
        · rw [if_neg rightIs] at same
          exact absurd (same.symm.trans leftIs) rightIs
      · rw [if_neg leftIs] at same ⊢
        by_cases rightIs : right.id = id
        · rw [if_pos rightIs] at same
          exact absurd (same.trans rightIs) leftIs
        · rw [if_neg rightIs] at same ⊢
          exact apart same
    · intro left among right new same
      obtain ⟨marked, inside, rfl⟩ := mem_map.mp among
      obtain ⟨w, old, rfl⟩ := mem_map.mp inside
      obtain rfl := mem_singleton.mp new
      by_cases is : w.id = id
      · rw [if_pos is]
        refine ⟨rfl, ?_⟩
        rw [Bool.eq_false_iff]
        intro all
        exact of_decide_eq_true (all_eq_true.mp all w old) is
      · rw [if_neg is] at same
        exact absurd same is
  removed := by
    intro w among alone late
    rcases mem_append.mp among with old | new
    · obtain ⟨before, inside, rfl⟩ := mem_map.mp old
      by_cases is : before.id = id
      · rw [if_pos is] at alone
        cases alone
      · rw [if_neg is] at alone late ⊢
        exact standing.removed before inside alone late
    · obtain rfl := mem_singleton.mp new
      exact absurd late fun either => either.elim starts.1 starts.2
  known := by
    intro other left found
    rw [beginWriter, getElem?_erase] at found
    by_cases same : id = other
    · rw [if_pos same] at found
      cases found
    rw [if_neg same] at found
    obtain ⟨current, quiet⟩ := standing.known other left found
    refine ⟨current, fun w among => ?_⟩
    rcases mem_append.mp among with old | new
    · obtain ⟨before, inside, rfl⟩ := mem_map.mp old
      have apart := quiet before inside
      split
      · exact apart
      · exact apart
    · obtain rfl := mem_singleton.mp new
      exact same

theorem goes_on_standing (registry : Registry Id Context) (index : Nat)
    (w : Writer Id) (stage : WriterStage Id) (stands : s.writers[index]? = some w)
    (elsewhere : ∀ id : Id, id ≠ w.id → registry.tokens[id]? = s.registry.tokens[id]?)
    (late : stage = .removeCache ∨ stage = .removeContexts → w.alone = true →
      registry.tokens[w.id]? = none) (standing : Standing s) :
    Standing ({ s with registry := registry }.writerGoesOn index w stage) where
  apart := by
    have same := map_set_same Writer.claim stands (rfl : Writer.claim ⟨w.id, w.alone, stage⟩ = w.claim)
    exact same ▸ standing.apart
  removed := by
    intro other among alone removing
    rcases (mem_set stands).mp among with rfl | others
    · exact late removing alone
    by_cases same : other.id = w.id
    · have apart := others_apart stands standing.apart others same
      exact absurd (alone.symm.trans apart.2) Bool.noConfusion
    · exact (elsewhere other.id same).trans
        (standing.removed other (mem_of_mem_eraseIdx others) alone removing)
  known := by
    intro id left found
    obtain ⟨current, quiet⟩ := standing.known id left found
    have apart := quiet w (mem_of_getElem? stands)
    refine ⟨(elsewhere id (Ne.symm apart)).trans current, fun other among => ?_⟩
    rcases (mem_set stands).mp among with rfl | others
    · exact apart
    · exact quiet other (mem_of_mem_eraseIdx others)

theorem returns_standing (registry : Registry Id Context) (index : Nat)
    (w : Writer Id) (left : Option (Token Id)) (stands : s.writers[index]? = some w)
    (elsewhere : ∀ id : Id, id ≠ w.id → registry.tokens[id]? = s.registry.tokens[id]?)
    (leaves : w.alone = true → registry.tokens[w.id]? = left) (standing : Standing s) :
    Standing ({ s with registry := registry }.writerReturns index w left) where
  apart := standing.apart.sublist ((eraseIdx_sublist _ _).map _)
  removed := by
    intro other among alone removing
    by_cases same : other.id = w.id
    · have apart := others_apart stands standing.apart among same
      exact absurd (alone.symm.trans apart.2) Bool.noConfusion
    · exact (elsewhere other.id same).trans
        (standing.removed other (mem_of_mem_eraseIdx among) alone removing)
  known := by
    intro id known found
    have before : s.standing[id]? = some known → registry.tokens[id]? = known ∧
        ∀ other ∈ s.writers.eraseIdx index, other.id ≠ id := by
      intro earlier
      obtain ⟨current, quiet⟩ := standing.known id known earlier
      have apart := quiet w (mem_of_getElem? stands)
      exact ⟨(elsewhere id (Ne.symm apart)).trans current,
        fun other among => quiet other (mem_of_mem_eraseIdx among)⟩
    rw [writerReturns] at found
    cases alone : w.alone with
    | false =>
      rw [alone] at found
      exact before found
    | true =>
      rw [alone, if_pos rfl, getElem?_insert] at found
      by_cases same : w.id = id
      · rw [if_pos same] at found
        subst same
        refine ⟨(leaves alone).trans (Option.some.inj found), fun other among same => ?_⟩
        have apart := others_apart stands standing.apart among same
        exact absurd (alone.symm.trans apart.1) Bool.noConfusion
      · rw [if_neg same] at found
        exact before found

theorem step_writer_standing (index : Nat) (w : Writer Id)
    (stands : s.writers[index]? = some w) (standing : Standing s) : Standing (s.stepWriter index w) := by
  rw [stepWriter]
  cases stage : w.stage with
  | evict token =>
    exact goes_on_standing s _ index w _ stands (fun id _ => rfl)
      (fun late => by rcases late with late | late <;> cases late) standing
  | insert token =>
    dsimp only
    split
    · exact standing
    · refine returns_standing s _ index w _ stands (fun id other => ?_) (fun _ => ?_) standing
      · rw [getElem?_insert, if_neg (Ne.symm other)]
      · rw [getElem?_insert, if_pos rfl]
  | removeTokens =>
    dsimp only
    split
    · exact standing
    · refine goes_on_standing s _ index w _ stands (fun id other => ?_) (fun _ _ => ?_) standing
      · rw [getElem?_erase, if_neg (Ne.symm other)]
      · rw [getElem?_erase, if_pos rfl]
  | removeCache =>
    refine goes_on_standing s _ index w _ stands (fun id _ => rfl) (fun _ alone => ?_) standing
    exact standing.removed w (mem_of_getElem? stands) alone (.inl stage)
  | removeContexts =>
    refine returns_standing s _ index w _ stands (fun id _ => rfl) (fun alone => ?_) standing
    exact standing.removed w (mem_of_getElem? stands) alone (.inr stage)

end

omit [Ord Id] [TransOrd Id] [LawfulEqOrd Id] [DecidableEq Id] in
theorem removal_stays {writers : List (Writer Id)} {index : Nat} {w : Writer Id}
    (stands : writers[index]? = some w) (id : Id) (other : w.stage = .removeCache → w.id ≠ id)
    (removal : ∃ v ∈ writers, v.id = id ∧ v.stage = .removeCache) :
    ∃ v ∈ writers.eraseIdx index, v.id = id ∧ v.stage = .removeCache := by
  obtain ⟨v, among, named, evicts⟩ := removal
  refine ⟨v, (mem_or_taken stands among).resolve_left ?_, named, evicts⟩
  rintro rfl
  exact other evicts named

omit [Ord Id] [TransOrd Id] [LawfulEqOrd Id] [DecidableEq Id] in
theorem removal_stays_set {writers : List (Writer Id)} {index : Nat} {w : Writer Id}
    (stands : writers[index]? = some w) (changed : Writer Id) (id : Id)
    (other : w.stage = .removeCache → w.id ≠ id)
    (removal : ∃ v ∈ writers, v.id = id ∧ v.stage = .removeCache) :
    ∃ v ∈ writers.set index changed, v.id = id ∧ v.stage = .removeCache := by
  obtain ⟨v, among, is⟩ := removal_stays stands id other removal
  exact ⟨v, (mem_set stands).mpr (.inr among), is⟩

omit [TransOrd Id] [LawfulEqOrd Id] [DecidableEq Id] in
theorem not_filling (s : Session Id Context) (free : ¬ s.held = true) (id : Id)
    (token : Token Id) : .fill id token ∉ s.readers := by
  intro among
  exact free (any_eq_true.mpr ⟨_, among, rfl⟩)

section
variable (s : Session Id Context) (index : Nat) (w : Writer Id)
include s index w

theorem evicted_coherent
    (stage : WriterStage Id) (stands : s.writers[index]? = some w) (coherent : Coherent s) :
    Coherent ({ s with registry := { s.registry with
      tokenCache := s.registry.tokenCache.erase w.id } }.writerGoesOn index w stage) where
  cached := by
    intro id held current cached
    refine coherent.cached id held current ?_
    rw [writerGoesOn, getElem?_erase] at cached
    exact (Option.ite_none_left_eq_some.mp cached).2
  orphan := by
    intro id held cached absent
    rw [writerGoesOn, getElem?_erase] at cached
    obtain ⟨apart, cached⟩ := Option.ite_none_left_eq_some.mp cached
    exact removal_stays_set stands _ id (fun _ => apart) (coherent.orphan id held cached absent)
  filling := coherent.filling

theorem inserted_coherent (token : Token Id) (stands : s.writers[index]? = some w) (free : ¬ s.held = true)
    (agrees : ∀ held, s.registry.tokenCache[w.id]? = some held → held = token) (coherent : Coherent s) :
    Coherent ({ s with registry := { s.registry with
      tokens := s.registry.tokens.insert w.id token } }.writerReturns index w (some token)) where
  cached := by
    intro id held current cached found
    rw [writerReturns, getElem?_insert] at found
    by_cases same : w.id = id
    · rw [if_pos same] at found
      subst same
      exact (agrees held cached).trans (Option.some.inj found)
    · rw [if_neg same] at found
      exact coherent.cached id held current cached found
  orphan := by
    intro id held cached absent
    rw [writerReturns, getElem?_insert] at absent
    by_cases same : w.id = id
    · rw [if_pos same] at absent
      cases absent
    · rw [if_neg same] at absent
      exact removal_stays stands id (fun _ => same) (coherent.orphan id held cached absent)
  filling := fun id held among => absurd among (not_filling s free id held)

theorem step_writer_coherent (stands : s.writers[index]? = some w) (unfilled : Unfilled s (.writer index))
    (coherent : Coherent s) : Coherent (s.stepWriter index w) := by
  rw [stepWriter]
  cases stage : w.stage with
  | evict token => exact evicted_coherent s index w (.insert token) stands coherent
  | insert token =>
    dsimp only
    split
    · exact coherent
    next free =>
      refine inserted_coherent s index w token stands free (fun held cached => ?_) coherent
      have clear := unfilled w stands
      rw [Session.Clear, stage] at clear
      have same := clear (Bool.not_eq_true _ ▸ free)
      rw [cached] at same
      exact beq_iff_eq.mp same
  | removeTokens =>
    dsimp only
    split
    · exact coherent
    next free =>
      constructor
      · intro id held current cached found
        rw [writerGoesOn, getElem?_erase] at found
        exact coherent.cached id held current cached (Option.ite_none_left_eq_some.mp found).2
      · intro id held cached absent
        rw [writerGoesOn, getElem?_erase] at absent
        by_cases same : w.id = id
        · exact ⟨_, (mem_set stands).mpr (.inl rfl), same, rfl⟩
        · rw [if_neg same] at absent
          exact removal_stays_set stands _ id (fun _ => same) (coherent.orphan id held cached absent)
      · exact fun id held among => absurd among (not_filling s free id held)
  | removeCache => exact evicted_coherent s index w .removeContexts stands coherent
  | removeContexts =>
    refine ⟨coherent.cached, ?_, coherent.filling⟩
    intro id held cached absent
    have other : w.stage = .removeCache → w.id ≠ id := fun evicts =>
      nomatch stage.symm.trans evicts
    exact removal_stays stands id other (coherent.orphan id held cached absent)

end

variable (r : Registry Id Context) (lock : Bool) (reader : Reader Id) (s : Session Id Context)
  (id : Id) (token : Token Id)

theorem fill_cache_found (other : Id) (held : Token Id)
    (cached : (r.fillCache id token).tokenCache[other]? = some held) :
    id = other ∧ token = held ∨ r.tokenCache[other]? = some held := by
  rw [Registry.fillCache, getElem?_insert] at cached
  by_cases same : id = other
  · rw [if_pos same] at cached
    exact .inl ⟨same, Option.some.inj cached⟩
  rw [if_neg same] at cached
  split at cached
  · cases cached
  · exact .inr cached

/-- A reader leaves the tokens alone; what it caches is what it holds. -/
theorem reader_next_registry : (reader.next r lock).1.tokens = r.tokens ∧
      ∀ (id : Id) held, (reader.next r lock).1.tokenCache[id]? = some held →
        reader = .fill id held ∨ r.tokenCache[id]? = some held := by
  cases reader with
  | cancel id =>
    rw [Reader.next, Registry.cancelToken]
    cases r.tokens[id]? with
    | none | some token => exact ⟨rfl, fun _ _ => .inr⟩
  | cleanup id | checkTokens id => exact ⟨rfl, fun _ _ => .inr⟩
  | lookCache id =>
    rw [Reader.next]
    cases r.tokenCache[id]? with
    | none | some token => exact ⟨rfl, fun _ _ => .inr⟩
  | lookTokens id =>
    rw [Reader.next]
    cases r.tokens[id]? with
    | none | some token => exact ⟨rfl, fun _ _ => .inr⟩
  | fill id token =>
    rw [Reader.next]
    cases lock with
    | false => exact ⟨rfl, fun _ _ => .inr⟩
    | true =>
      refine ⟨rfl, fun other held cached => ?_⟩
      rcases fill_cache_found r id token other held cached with ⟨rfl, rfl⟩ | before
      · exact .inl rfl
      · exact .inr before
  | checkCache id =>
    rw [Reader.next]
    cases (if lock then r.tokenCache[id]? else none) with
    | none | some token => exact ⟨rfl, fun _ _ => .inr⟩

theorem goes_on_fills (goesOn : (reader.next r lock).2 = .goesOn (.fill id token)) :
    r.tokens[id]? = some token := by
  cases reader with
  | lookTokens other =>
    rw [Reader.next] at goesOn
    cases found : r.tokens[other]? with
    | none =>
      rw [found] at goesOn
      cases goesOn
    | some held =>
      rw [found] at goesOn
      cases goesOn
      exact found
  | lookCache other =>
    rw [Reader.next] at goesOn
    cases found : r.tokenCache[other]? with
    | none | some held => rw [found] at goesOn; cases goesOn
  | checkCache other =>
    rw [Reader.next] at goesOn
    cases found : (if lock then r.tokenCache[other]? else none) with
    | none | some held => rw [found] at goesOn; cases goesOn
  | cancel other => cases goesOn
  | cleanup other => cases goesOn
  | fill other held => cases goesOn
  | checkTokens other => cases goesOn

theorem step_reader_coherent (index : Nat) (reader : Reader Id) (lock : Bool)
    (stands : s.readers[index]? = some reader) (coherent : Coherent s) :
    Coherent (s.stepReader index reader lock) := by
  obtain ⟨tokens, cache⟩ := reader_next_registry s.registry lock reader
  constructor
  · intro id held current cached found
    rw [stepReader, tokens] at found
    rcases cache id held cached with rfl | before
    · have registered := coherent.filling id held (mem_of_getElem? stands)
      exact Option.some.inj (registered.symm.trans found)
    · exact coherent.cached id held current before found
  · intro id held cached absent
    rw [stepReader, tokens] at absent
    rcases cache id held cached with rfl | before
    · have registered := coherent.filling id held (mem_of_getElem? stands)
      exact nomatch registered.symm.trans absent
    · exact coherent.orphan id held before absent
  · intro id token among
    rw [stepReader, tokens]
    rw [stepReader] at among
    dsimp only at among
    cases progress : (reader.next s.registry lock).2 with
    | returns answer =>
      rw [progress] at among
      exact coherent.filling id token (mem_of_mem_eraseIdx among)
    | goesOn next =>
      rw [progress] at among
      rcases (mem_set stands).mp among with same | before
      · exact goes_on_fills s.registry lock reader id token (same ▸ progress)
      · exact coherent.filling id token (mem_of_mem_eraseIdx before)

theorem begin_writer_coherent (stage : WriterStage Id) (coherent : Coherent s) :
    Coherent (s.beginWriter id stage) := by
  refine ⟨coherent.cached, fun other held cached absent => ?_, coherent.filling⟩
  obtain ⟨w, among, named, evicts⟩ := coherent.orphan other held cached absent
  refine ⟨_, mem_append_left _ (mem_map_of_mem among), ?_⟩
  split
  · exact ⟨named, evicts⟩
  · exact ⟨named, evicts⟩

omit [TransOrd Id] [LawfulEqOrd Id] [DecidableEq Id] in
theorem begin_reader_coherent (s : Session Id Context) (reader : Reader Id)
    (starts : reader.holdsTokens = false) (coherent : Coherent s) : Coherent (s.beginReader reader) := by
  refine ⟨coherent.cached, coherent.orphan, fun id token among => ?_⟩
  rcases mem_append.mp among with old | new
  · exact coherent.filling id token old
  · rw [← mem_singleton.mp new] at starts
    cases starts

variable (op : Op Id Context)

theorem step_coherent (coherent : Coherent s) (unfilled : Unfilled s op) : Coherent (step s op) := by
  cases op with
  | registerToken token => exact begin_writer_coherent s token.requestId (.evict token) coherent
  | registerCleanup id context => exact ⟨coherent.cached, coherent.orphan, coherent.filling⟩
  | cancelRequest id => exact begin_reader_coherent s (.cancel id) rfl coherent
  | getToken id => exact begin_reader_coherent s (.lookCache id) rfl coherent
  | isCancelled id => exact begin_reader_coherent s (.checkCache id) rfl coherent
  | removeRequest id => exact begin_writer_coherent s id .removeTokens coherent
  | writer index =>
    rw [step]
    cases stands : s.writers[index]? with
    | none => exact coherent
    | some w => exact step_writer_coherent s index w stands unfilled coherent
  | reader index lock =>
    rw [step]
    cases stands : s.readers[index]? with
    | none => exact coherent
    | some reader => exact step_reader_coherent s index reader lock stands coherent

theorem step_standing (standing : Standing s) : Standing (step s op) := by
  cases op with
  | registerToken token =>
    exact begin_writer_standing s token.requestId (.evict token) ⟨nofun, nofun⟩ standing
  | registerCleanup id context | cancelRequest id | getToken id | isCancelled id =>
    exact ⟨standing.apart, standing.removed, standing.known⟩
  | removeRequest id => exact begin_writer_standing s id .removeTokens ⟨nofun, nofun⟩ standing
  | writer index =>
    rw [step]
    cases stands : s.writers[index]? with
    | none => exact standing
    | some w => exact step_writer_standing s index w stands standing
  | reader index lock =>
    rw [step]
    cases stands : s.readers[index]? with
    | none => exact standing
    | some reader =>
      have tokens := (reader_next_registry s.registry lock reader).1
      constructor
      · exact standing.apart
      · intro w among alone late
        exact (congrArg (fun table => table[w.id]?) tokens).trans (standing.removed w among alone late)
      · intro id left known
        obtain ⟨current, quiet⟩ := standing.known id left known
        exact ⟨(congrArg (fun table => table[id]?) tokens).trans current, quiet⟩

def Bounded (s : Session Id Context) : Prop := s.registry.tokenCache.size ≤ maxCacheSize

omit [LawfulEqOrd Id] [DecidableEq Id] in
theorem fill_cache_bounded (r : Registry Id Context) (id : Id) (token : Token Id) :
    (r.fillCache id token).tokenCache.size ≤ maxCacheSize := by
  rw [Registry.fillCache]
  dsimp only
  split
  · refine Nat.le_trans TreeMap.size_insert_le ?_
    rw [TreeMap.size_emptyc]
    decide
  next room => exact Nat.le_trans TreeMap.size_insert_le (Nat.lt_of_not_le room)

omit [LawfulEqOrd Id] [DecidableEq Id] in
theorem reader_next_bounded (r : Registry Id Context) (lock : Bool) (reader : Reader Id)
    (bounded : r.tokenCache.size ≤ maxCacheSize) :
    (reader.next r lock).1.tokenCache.size ≤ maxCacheSize := by
  cases reader with
  | fill id token =>
    cases lock with
    | true => exact fill_cache_bounded r id token
    | false => exact bounded
  | cancel id =>
    rw [Reader.next, Registry.cancelToken]
    cases r.tokens[id]? with
    | none | some token => exact bounded
  | lookCache id =>
    rw [Reader.next]
    cases r.tokenCache[id]? with
    | none | some token => exact bounded
  | lookTokens id =>
    rw [Reader.next]
    cases r.tokens[id]? with
    | none | some token => exact bounded
  | checkCache id =>
    rw [Reader.next]
    cases (if lock then r.tokenCache[id]? else none) with
    | none | some token => exact bounded
  | cleanup id | checkTokens id => exact bounded

omit [LawfulEqOrd Id] in
theorem step_bounded (s : Session Id Context) (op : Op Id Context) (bounded : Bounded s) :
    Bounded (step s op) := by
  cases op with
  | writer index =>
    rw [step]
    cases s.writers[index]? with
    | none => exact bounded
    | some w =>
      have evicted : (s.registry.tokenCache.erase w.id).size ≤ maxCacheSize :=
        Nat.le_trans TreeMap.size_erase_le bounded
      dsimp only [stepWriter]
      cases w.stage with
      | evict token | removeCache => exact evicted
      | removeContexts => exact bounded
      | insert token | removeTokens =>
        dsimp only
        split
        · exact bounded
        · exact bounded
  | reader index lock =>
    rw [step]
    cases s.readers[index]? with
    | none => exact bounded
    | some reader => exact reader_next_bounded s.registry lock reader bounded
  | registerToken token | registerCleanup id context | cancelRequest id | getToken id
  | isCancelled id | removeRequest id => exact bounded

def Quiet (s : Session Id Context) (id : Id) : Prop := ∀ w ∈ s.writers, w.id ≠ id

/-- What is answered about an id while no call changes it: `get_token` answers what the last call
for it left, `is_cancelled` with its locks whether that is cancelled, and `cancel_request` cancels
it. -/
structure Answered (s : Session Id Context) : Prop where
  token : ∀ id : Id, Quiet s id → ∀ reader ∈ s.readers, ∀ lock answer,
    (reader.next s.registry lock).2 = .returns (.token id answer) →
      answer = s.registry.tokens[id]?
  cancelled : ∀ id : Id, Quiet s id → ∀ reader ∈ s.readers, ∀ answer,
    (reader.next s.registry true).2 = .returns (.cancelled id answer) →
      answer = s.registry.tokens[id]?.any s.registry.isCancelledRelaxed
  cancels : ∀ (id : Id) token, s.registry.tokens[id]? = some token →
    (s.registry.cancelToken id).isCancelledRelaxed token = true
  standing : ∀ (id : Id) left, s.standing[id]? = some left →
    Quiet s id ∧ s.registry.tokens[id]? = left

omit [TransOrd Id] [LawfulEqOrd Id] [DecidableEq Id] in
theorem Coherent.cached_quiet {s : Session Id Context} (coherent : Coherent s) {id : Id}
    (quiet : Quiet s id) {held : Token Id} (cached : s.registry.tokenCache[id]? = some held) :
    s.registry.tokens[id]? = some held := by
  cases found : s.registry.tokens[id]? with
  | none =>
    obtain ⟨w, among, named, -⟩ := coherent.orphan id held cached found
    exact absurd named (quiet w among)
  | some current => rw [coherent.cached id held current cached found]

omit [TransOrd Id] [LawfulEqOrd Id] [DecidableEq Id] in
theorem Coherent.answered {s : Session Id Context} (coherent : Coherent s)
    (standing : Standing s) : Answered s where
  token := by
    intro id quiet reader among lock answer returns
    cases reader with
    | lookCache other =>
      rw [Reader.next] at returns
      cases cached : s.registry.tokenCache[other]? with
      | none => rw [cached] at returns; cases returns
      | some held =>
        rw [cached] at returns
        cases returns
        exact (coherent.cached_quiet quiet cached).symm
    | lookTokens other =>
      rw [Reader.next] at returns
      cases found : s.registry.tokens[other]? with
      | none =>
        rw [found] at returns
        cases returns
        exact found.symm
      | some held => rw [found] at returns; cases returns
    | fill other token =>
      cases returns
      exact (coherent.filling id token among).symm
    | checkCache other =>
      rw [Reader.next] at returns
      cases found : (if lock then s.registry.tokenCache[other]? else none) with
      | none | some held => rw [found] at returns; cases returns
    | cancel other | cleanup other | checkTokens other => cases returns
  cancelled := by
    intro id quiet reader among answer returns
    cases reader with
    | checkCache other =>
      rw [Reader.next, if_pos rfl] at returns
      cases cached : s.registry.tokenCache[other]? with
      | none => rw [cached] at returns; cases returns
      | some held =>
        rw [cached] at returns
        cases returns
        rw [coherent.cached_quiet quiet cached, Option.any_some]
    | checkTokens other =>
      cases returns
      exact Bool.true_and _
    | lookCache other =>
      rw [Reader.next] at returns
      cases found : s.registry.tokenCache[other]? with
      | none | some held => rw [found] at returns; cases returns
    | lookTokens other =>
      rw [Reader.next] at returns
      cases found : s.registry.tokens[other]? with
      | none | some held => rw [found] at returns; cases returns
    | fill other token | cancel other | cleanup other => cases returns
  cancels := by
    intro id token found
    rw [Registry.cancelToken, found]
    exact contains_iff_mem.mpr mem_cons_self
  standing := by
    intro id left known
    obtain ⟨current, quiet⟩ := standing.known id left known
    exact ⟨quiet, current⟩

def firstToken : Token Nat := ⟨7, "hover", 0⟩
def secondToken : Token Nat := ⟨7, "hover", 1⟩

/-- A token is registered, looked up, cached and cancelled; then the id is registered anew and
removed. -/
def sequentialRun : List (Op Nat Unit) :=
  [.registerToken firstToken, .writer 0, .writer 0, .getToken 7, .reader 0 true, .reader 0 true,
    .reader 0 true, .cancelRequest 7, .reader 0 true, .reader 0 true, .isCancelled 7,
    .registerToken secondToken, .writer 0, .writer 0, .getToken 7, .reader 0 true, .removeRequest 7,
    .writer 0, .writer 0, .writer 0, .getToken 7]

/-- The id is registered again while a lookup of the first token fills the cache, between eviction
and insertion. -/
def refilledRun : List (Op Nat Unit) :=
  [.registerToken firstToken, .writer 0, .writer 0, .getToken 7, .reader 0 true, .reader 0 true,
    .registerToken secondToken, .writer 0, .reader 0 true, .writer 0, .getToken 7]

end PerlLsp.CancellationRegistry
