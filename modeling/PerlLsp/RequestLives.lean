import Mathlib.Data.List.Basic

/-! The life of a request under one key: it is admitted, goes through ranks, gets one
terminal and is cleaned; then the key may be admitted again. A registry is compared with
the events it has reported so far, read one key at a time. Keys, ranks and kinds of
terminal are arbitrary. -/
namespace PerlLsp.RequestLives
open List

universe u v
variable {Key : Type u} {Terminal : Type v}

inductive EventKind (Terminal : Type v) where
  | admitted
  | advanced (rank : Nat)
  | selected (terminal : Terminal)
  | written
  | writeFailed
  | lost
  deriving DecidableEq

structure Event (Key : Type u) (Terminal : Type v) where
  key : Key
  kind : EventKind Terminal
  deriving DecidableEq

inductive Status where
  | waiting (rank : Nat)
  | chosen
  deriving DecidableEq

def next : Option Status → EventKind Terminal → Option (Option Status)
  | none, .admitted => some (some (.waiting 0))
  | some (.waiting rank), .advanced higher => if rank < higher then some (some (.waiting higher)) else none
  | some (.waiting _), .selected _ => some (some .chosen)
  | some .chosen, .written => some none
  | some .chosen, .writeFailed => some none
  | some _, .lost => some none
  | _, _ => none

def follow (status : Option Status) (events : List (EventKind Terminal)) : Option (Option Status) :=
  events.foldlM next status

def EventKind.cleans : EventKind Terminal → Bool
  | .written => true
  | .writeFailed => true
  | .lost => true
  | _ => false

def EventKind.selects : EventKind Terminal → Bool
  | .selected _ => true
  | _ => false

def EventKind.admits : EventKind Terminal → Bool
  | .admitted => true
  | _ => false

def EventKind.finishes : EventKind Terminal → Bool
  | .written => true
  | .writeFailed => true
  | _ => false

theorem follow_append (status : Option Status) (before after : List (EventKind Terminal)) :
    follow status (before ++ after) =
      (follow status before).bind fun middle => follow middle after := foldlM_append

/-- What happens to one admission until the key is admitted again. -/
structure OneLife (during : List (EventKind Terminal)) : Prop where
  oneTerminal : during.countP EventKind.selects ≤ 1
  cleanedOnce : during.countP EventKind.cleans ≤ 1
  afterTerminal : ∀ before event after, during = before ++ event :: after →
    event.finishes = true → ∃ earlier ∈ before, earlier.selects = true

variable {events : List (EventKind Terminal)} {last : Option Status}

theorem follow_absent (follows : follow none events = some last)
    (fresh : ∀ event ∈ events, event.admits = false) : events = [] := by
  cases events with
  | nil => rfl
  | cons event rest =>
    have first := fresh event mem_cons_self
    cases event with
    | admitted => exact absurd first Bool.noConfusion
    | advanced rank | selected terminal | written | writeFailed | lost => cases follows

theorem follow_chosen (follows : follow (some .chosen) events = some last)
    (fresh : ∀ event ∈ events, event.admits = false) :
    events = [] ∨ ∃ event, events = [event] ∧ event.cleans = true ∧ event.selects = false := by
  cases events with
  | nil => exact Or.inl rfl
  | cons event rest =>
    have others := fun other among => fresh other (mem_cons_of_mem event among)
    refine Or.inr ⟨event, ?_⟩
    cases event with
    | admitted | advanced rank | selected terminal => cases follows
    | written | writeFailed | lost => exact ⟨by rw [follow_absent follows others], rfl, rfl⟩

theorem OneLife.nil : OneLife ([] : List (EventKind Terminal)) where
  oneTerminal := Nat.zero_le 1
  cleanedOnce := Nat.zero_le 1
  afterTerminal before event after split := by simp at split

theorem OneLife.cons_advanced {during : List (EventKind Terminal)} (life : OneLife during)
    (rank : Nat) : OneLife (.advanced rank :: during) where
  oneTerminal := by rw [countP_cons_of_neg Bool.false_ne_true]; exact life.oneTerminal
  cleanedOnce := by rw [countP_cons_of_neg Bool.false_ne_true]; exact life.cleanedOnce
  afterTerminal before event after split finishes := by
    cases before with
    | nil =>
      obtain ⟨rfl, -⟩ := List.cons.inj split
      cases finishes
    | cons first before =>
      obtain ⟨earlier, among, selects⟩ :=
        life.afterTerminal before event after (List.cons.inj split).2 finishes
      exact ⟨earlier, mem_cons_of_mem first among, selects⟩

theorem OneLife.selected {terminal : Terminal} {rest : List (EventKind Terminal)}
    (only : rest.countP EventKind.selects = 0) (once : rest.countP EventKind.cleans ≤ 1) :
    OneLife (.selected terminal :: rest) where
  oneTerminal := Nat.le_of_eq (by rw [countP_cons_of_pos rfl, only])
  cleanedOnce := by rw [countP_cons_of_neg Bool.false_ne_true]; exact once
  afterTerminal before event after split finishes := by
    cases before with
    | nil =>
      obtain ⟨rfl, -⟩ := List.cons.inj split
      cases finishes
    | cons first before =>
      obtain ⟨rfl, -⟩ := List.cons.inj split
      exact ⟨_, mem_cons_self, rfl⟩

theorem OneLife.lost : OneLife ([.lost] : List (EventKind Terminal)) where
  oneTerminal := Nat.zero_le 1
  cleanedOnce := Nat.le_refl 1
  afterTerminal before event after split finishes := by
    cases before with
    | nil =>
      obtain ⟨rfl, -⟩ := List.cons.inj split
      cases finishes
    | cons first before => simp at split

theorem follow_waiting {rank : Nat} (follows : follow (some (.waiting rank)) events = some last)
    (fresh : ∀ event ∈ events, event.admits = false) : OneLife events := by
  induction events generalizing rank with
  | nil => exact .nil
  | cons event rest ih =>
    have others := fun other among => fresh other (mem_cons_of_mem event among)
    cases event with
    | admitted | written | writeFailed => cases follows
    | advanced higher =>
      obtain ⟨status, moves, tail⟩ := Option.bind_eq_some_iff.mp follows
      obtain ⟨-, same⟩ := Option.ite_none_right_eq_some.mp moves
      obtain rfl := Option.some.inj same
      exact (ih tail others).cons_advanced higher
    | selected terminal =>
      rcases follow_chosen follows others with rfl | ⟨clean, rfl, cleans, plain⟩
      · exact .selected rfl (Nat.zero_le 1)
      · exact .selected (by simp [plain]) (by simp [cleans])
    | lost =>
      obtain rfl := follow_absent follows others
      exact .lost

/-- Between one admission of a key and the next there is one life. -/
theorem one_life {before during after : List (EventKind Terminal)}
    (follows : follow none events = some last) (split : events = before ++ .admitted :: (during ++ after))
    (fresh : ∀ event ∈ during, event.admits = false) : OneLife during := by
  rw [split, follow_append] at follows
  obtain ⟨status, -, rest⟩ := Option.bind_eq_some_iff.mp follows
  obtain ⟨admitted, enters, rest⟩ := Option.bind_eq_some_iff.mp rest
  have waiting : admitted = some (.waiting 0) := by
    cases status with
    | none => exact (Option.some.inj enters).symm
    | some status => cases status <;> cases enters
  rw [waiting] at rest
  have tail : follow (some (.waiting 0)) (during ++ after) = some last := rest
  rw [follow_append] at tail
  obtain ⟨middle, follows, -⟩ := Option.bind_eq_some_iff.mp tail
  exact follow_waiting follows fresh

section Keys
variable [DecidableEq Key]

def eventsOf (key : Key) (trace : List (Event Key Terminal)) : List (EventKind Terminal) :=
  (trace.filter fun event => event.key = key).map Event.kind

def cleanedKeys (trace : List (Event Key Terminal)) : List Key :=
  (trace.filter fun event => event.kind.cleans).map Event.key

theorem events_of_append (key : Key) (before after : List (Event Key Terminal)) :
    eventsOf key (before ++ after) = eventsOf key before ++ eventsOf key after := by
  rw [eventsOf, filter_append, map_append]
  rfl

omit [DecidableEq Key] in
theorem cleaned_keys_append (before after : List (Event Key Terminal)) :
    cleanedKeys (before ++ after) = cleanedKeys before ++ cleanedKeys after := by
  rw [cleanedKeys, filter_append, map_append]
  rfl

end Keys

def lastOf {Item : Type u} (limit : Nat) (items : List Item) : List Item :=
  items.drop (items.length - limit)

theorem last_of_length {Item : Type u} (limit : Nat) (items : List Item) :
    (lastOf limit items).length ≤ limit := by
  rw [lastOf, length_drop]
  omega

theorem last_of_short {Item : Type u} {limit : Nat} {items : List Item}
    (short : items.length ≤ limit) : lastOf limit items = items := by
  rw [lastOf, Nat.sub_eq_zero_of_le short, drop_zero]

theorem last_of_append {Item : Type u} (limit : Nat) (items more : List Item) :
    lastOf limit (lastOf limit items ++ more) = lastOf limit (items ++ more) := by
  have inside : items.length - limit ≤ items.length := Nat.sub_le _ _
  have whole : lastOf limit items ++ more = (items ++ more).drop (items.length - limit) :=
    (drop_append_of_le_length inside).symm
  rw [whole, lastOf, lastOf, drop_drop, length_drop]
  by_cases short : items.length ≤ limit
  · rw [Nat.sub_eq_zero_of_le short, Nat.sub_zero, Nat.zero_add]
  · congr 1
    rw [length_append]
    omega

end PerlLsp.RequestLives
