import Mathlib.Data.List.Basic
import Mathlib.Logic.Relation

/-! Depth-first traversal of a graph given by the successors of each node. The traversal keeps its
current path, lists every other node when it first meets it, and notes a cycle when it meets a node
of the path; it goes on past a cycle or stops at the first one. `explore` is bounded by fuel; a
derivation of `Explores` is a traversal that ends. -/
namespace PerlLsp.DepthFirst
open Relation List

universe u
variable {Node : Type u}

structure Found (Node : Type u) where
  collected : List Node
  cycle : Bool

def Found.collect (found : Found Node) (node : Node) : Found Node :=
  { found with collected := found.collected ++ [node] }

def Found.flag (found : Found Node) : Found Node := { found with cycle := true }

def Edge (next : Node → List Node) (source target : Node) : Prop := target ∈ next source

def Reaches (next : Node → List Node) : Node → Node → Prop := ReflTransGen (Edge next)

def CycleBelow (next : Node → List Node) (start : Node) : Prop :=
  ∃ node, Reaches next start node ∧ TransGen (Edge next) node node

def Grounded (next : Node → List Node) (node : Node) : Prop :=
  Acc (fun below above => Edge next above below) node

/-- The traversal of the pending nodes below a path, with `stops` ending it at the first
cycle. -/
inductive Explores (next : Node → List Node) (stops : Bool) :
    List Node → List Node → Found Node → Found Node → Prop where
  | done (path : List Node) (found : Found Node) : Explores next stops path [] found found
  | stopped (path : List Node) (child : Node) (rest : List Node) (found : Found Node)
      (stopping : stops = true) (met : found.cycle = true) :
      Explores next stops path (child :: rest) found found
  | back (path : List Node) (child : Node) (rest : List Node) (found after : Found Node)
      (onPath : child ∈ path) (others : Explores next stops path rest found.flag after) :
      Explores next stops path (child :: rest) found after
  | seen (path : List Node) (child : Node) (rest : List Node) (found after : Found Node)
      (offPath : child ∉ path) (known : child ∈ found.collected)
      (others : Explores next stops path rest found after) :
      Explores next stops path (child :: rest) found after
  | enter (path : List Node) (child : Node) (rest : List Node) (found inner after : Found Node)
      (offPath : child ∉ path) (fresh : child ∉ found.collected)
      (below : Explores next stops (child :: path) (next child) (found.collect child) inner)
      (others : Explores next stops path rest inner after) :
      Explores next stops path (child :: rest) found after

section Fuel
variable [DecidableEq Node]

def explore (next : Node → List Node) (stops : Bool) : Nat → List Node → Node → Found Node → Found Node
  | 0, _, _, found => found
  | fuel + 1, path, node, found =>
    (next node).foldl (fun found child =>
      if stops && found.cycle then found
      else if child ∈ path then found.flag
      else if child ∈ found.collected then found
      else explore next stops fuel (child :: path) child (found.collect child)) found

end Fuel

namespace Explores
variable {next : Node → List Node} {stops : Bool} {path pending : List Node}
  {found after : Found Node}

section
variable (explores : Explores next stops path pending found after)
include explores

theorem keeps : found.collected ⊆ after.collected := by
  induction explores with
  | done path found | stopped path child rest found stopping met => exact List.Subset.refl _
  | back path child rest found after onPath others ih => exact ih
  | seen path child rest found after offPath known others ih => exact ih
  | enter path child rest found inner after offPath fresh below others ihBelow ihOthers =>
    have outer : found.collected ⊆ (found.collect child).collected :=
      subset_append_left _ _
    exact List.Subset.trans (List.Subset.trans outer ihBelow) ihOthers

theorem keeps_flag (met : found.cycle = true) : after.cycle = true := by
  induction explores with
  | done path found => exact met
  | stopped path child rest found stopping _ => exact met
  | back path child rest found after onPath others ih => exact ih rfl
  | seen path child rest found after offPath known others ih => exact ih met
  | enter path child rest found inner after offPath fresh below others ihBelow ihOthers =>
    exact ihOthers (ihBelow met)

theorem nodup (distinct : found.collected.Nodup) : after.collected.Nodup := by
  induction explores with
  | done path found | stopped path child rest found stopping met => exact distinct
  | back path child rest found after onPath others ih
  | seen path child rest found after offPath known others ih => exact ih distinct
  | enter path child rest found inner after offPath fresh below others ihBelow ihOthers =>
    apply ihOthers
    apply ihBelow
    exact nodup_append.mpr ⟨distinct, pairwise_singleton _ child,
      fun node known other same equal => fresh (mem_singleton.mp same ▸ equal ▸ known)⟩

theorem avoids (node : Node)
    (onPath : node ∈ path) (outside : node ∉ found.collected) : node ∉ after.collected := by
  induction explores with
  | done path found | stopped path child rest found stopping met => exact outside
  | back path child rest found after _ others ih
  | seen path child rest found after offPath known others ih => exact ih onPath outside
  | enter path child rest found inner after offPath fresh below others ihBelow ihOthers =>
    apply ihOthers onPath
    apply ihBelow (mem_cons_of_mem child onPath)
    intro among
    rcases mem_append.mp among with known | same
    · exact outside known
    · exact offPath (mem_singleton.mp same ▸ onPath)

theorem reached (source : Node)
    (successors : pending ⊆ next source) (node : Node) (among : node ∈ after.collected) :
    node ∈ found.collected ∨ TransGen (Edge next) source node := by
  induction explores generalizing source with
  | done path found | stopped path child rest found stopping met => exact .inl among
  | back path child rest found after onPath others ih
  | seen path child rest found after offPath known others ih =>
    exact ih source (fun _ later => successors (mem_cons_of_mem child later)) among
  | enter path child rest found inner after offPath fresh below others ihBelow ihOthers =>
    have edge : Edge next source child := successors mem_cons_self
    rcases ihOthers source (fun _ later => successors (mem_cons_of_mem child later)) among
      with earlier | reaches
    · rcases ihBelow child (List.Subset.refl _) earlier with collected | reaches
      · rcases mem_append.mp collected with known | same
        · exact .inl known
        · rw [mem_singleton.mp same]
          exact .inr (.single edge)
      · exact .inr (.head edge reaches)
    · exact .inr reaches

end

/-- A cycle is noted only where there is one: the path leads to the node whose successors
are pending. -/
theorem flag_sound (explores : Explores next stops path pending found after) (start source : Node)
    (reaches : Reaches next start source) (leads : ∀ node ∈ path, Reaches next node source)
    (successors : pending ⊆ next source) (met : after.cycle = true) :
    found.cycle = true ∨ CycleBelow next start := by
  induction explores generalizing source with
  | done path found | stopped path child rest found stopping _ => exact .inl met
  | back path child rest found after onPath others ih =>
    have closes : TransGen (Edge next) child child :=
      .tail' (leads child onPath) (successors mem_cons_self)
    exact .inr ⟨child, reaches.tail (successors mem_cons_self), closes⟩
  | seen path child rest found after offPath known others ih =>
    exact ih source reaches leads (fun _ later => successors (mem_cons_of_mem child later)) met
  | enter path child rest found inner after offPath fresh below others ihBelow ihOthers =>
    have edge : Edge next source child := successors mem_cons_self
    rcases ihOthers source reaches leads
      (fun _ later => successors (mem_cons_of_mem child later)) met with earlier | cycle
    · apply ihBelow child (reaches.tail edge) ?_ (List.Subset.refl _) earlier
      intro node onPath
      rcases mem_cons.mp onPath with same | outer
      · rw [same]
        exact .refl
      · exact (leads node outer).tail edge
    · exact .inr cycle

/-- While no cycle is noted, every node done with has no infinite path below it. -/
theorem grounded (explores : Explores next stops path pending found after) (unmet : after.cycle = false)
    (ground : ∀ node ∈ found.collected, node ∉ path → Grounded next node) :
    (∀ node ∈ pending, Grounded next node) ∧ ∀ node ∈ after.collected, node ∉ path → Grounded next node := by
  induction explores with
  | done path found => exact ⟨fun _ none => absurd none not_mem_nil, ground⟩
  | stopped path child rest found stopping met =>
    rw [met] at unmet
    cases unmet
  | back path child rest found after onPath others ih =>
    rw [others.keeps_flag rfl] at unmet
    cases unmet
  | seen path child rest found after offPath known others ih =>
    obtain ⟨later, all⟩ := ih unmet ground
    exact ⟨forall_mem_cons.mpr ⟨ground child known offPath, later⟩, all⟩
  | enter path child rest found inner after offPath fresh below others ihBelow ihOthers =>
    have quiet : inner.cycle = false := by
      cases met : inner.cycle with
      | false => rfl
      | true =>
        rw [others.keeps_flag met] at unmet
        cases unmet
    obtain ⟨successors, inside⟩ := ihBelow quiet (by
      intro node among offLonger
      rcases mem_append.mp among with known | same
      · exact ground node known fun onPath => offLonger (mem_cons_of_mem child onPath)
      · exact absurd (mem_cons.mpr (.inl (mem_singleton.mp same))) offLonger)
    have grounded : Grounded next child := Acc.intro child successors
    obtain ⟨later, all⟩ := ihOthers unmet (by
      intro node among off
      by_cases same : node = child
      · exact same ▸ grounded
      · exact inside node among fun onLonger =>
          (mem_cons.mp onLonger).elim same off)
    exact ⟨forall_mem_cons.mpr ⟨grounded, later⟩, all⟩

/-- A traversal that does not stop at a cycle lists the successors of all it lists. -/
theorem closed (explores : Explores next stops path pending found after)
    (through : stops = false ∨ after.cycle = false) :
    (∀ node ∈ pending, node ∈ path ∨ node ∈ after.collected) ∧
      ∀ node ∈ after.collected, node ∉ found.collected →
        ∀ target ∈ next node, target ∈ path ∨ target ∈ after.collected := by
  induction explores with
  | done path found =>
    exact ⟨fun _ none => absurd none not_mem_nil, fun _ among outside => absurd among outside⟩
  | stopped path child rest found stopping met =>
    rw [stopping, met] at through
    rcases through with goes | unmet
    · cases goes
    · cases unmet
  | back path child rest found after onPath others ih =>
    obtain ⟨later, all⟩ := ih through
    exact ⟨forall_mem_cons.mpr ⟨.inl onPath, later⟩, all⟩
  | seen path child rest found after offPath known others ih =>
    obtain ⟨later, all⟩ := ih through
    exact ⟨forall_mem_cons.mpr ⟨.inr (others.keeps known), later⟩, all⟩
  | enter path child rest found inner after offPath fresh below others ihBelow ihOthers =>
    have quiet : stops = false ∨ inner.cycle = false := by
      rcases through with goes | unmet
      · exact .inl goes
      cases met : inner.cycle with
      | false => exact .inr rfl
      | true =>
        rw [others.keeps_flag met] at unmet
        cases unmet
    obtain ⟨successors, inside⟩ := ihBelow quiet
    obtain ⟨later, all⟩ := ihOthers through
    have collected : child ∈ inner.collected :=
      below.keeps (mem_append_right _ (mem_singleton.mpr rfl))
    have outer (target : Node) (there : target ∈ child :: path ∨ target ∈ inner.collected) :
        target ∈ path ∨ target ∈ after.collected := by
      rcases there with onLonger | among
      · rcases mem_cons.mp onLonger with same | onPath
        · rw [same]
          exact .inr (others.keeps collected)
        · exact .inl onPath
      · exact .inr (others.keeps among)
    refine ⟨forall_mem_cons.mpr ⟨.inr (others.keeps collected), later⟩, ?_⟩
    intro node among outside target edge
    by_cases earlier : node ∈ inner.collected
    · by_cases same : node = child
      · exact outer target (successors target (same ▸ edge))
      apply outer target (inside node earlier ?_ target edge)
      intro known
      rcases mem_append.mp known with before | this
      · exact outside before
      · exact same (mem_singleton.mp this)
    · exact all node among earlier target edge

end Explores

section Start
variable {next : Node → List Node} {stops : Bool} {start : Node} {after : Found Node}

theorem no_cycle_below_ground (ground : Grounded next start) : ¬ CycleBelow next start := by
  rintro ⟨node, reaches, cycle⟩
  have below : Grounded next node := by
    clear cycle
    induction reaches with
    | refl => exact ground
    | tail _ edge ih => exact Acc.inv ih edge
  have turned : TransGen (fun below above => Edge next above below) node node := cycle.swap
  clear cycle reaches
  induction Acc.transGen below with
  | intro node _ ih => exact ih node turned below turned

section
variable (explores : Explores next stops [start] (next start) ⟨[], false⟩ after)
include explores

/-- The flag is raised exactly when a cycle is reached from the start. -/
theorem start_cycle_iff : after.cycle = true ↔ CycleBelow next start := by
  constructor
  · intro met
    have leads (node : Node) (onPath : node ∈ [start]) : Reaches next node start := by
      rw [mem_singleton.mp onPath]
      exact .refl
    rcases explores.flag_sound start start .refl leads (List.Subset.refl _) met with raised | cycle
    · cases raised
    · exact cycle
  · intro cycle
    cases met : after.cycle with
    | true => rfl
    | false =>
      obtain ⟨successors, _⟩ := explores.grounded met fun _ none => absurd none not_mem_nil
      exact absurd cycle (no_cycle_below_ground (.intro start successors))

theorem start_nodup : after.collected.Nodup :=
  explores.nodup nodup_nil

theorem start_avoided : start ∉ after.collected :=
  explores.avoids start (mem_singleton.mpr rfl) not_mem_nil

theorem start_reached (node : Node) (among : node ∈ after.collected) : TransGen (Edge next) start node := by
  rcases explores.reached start (List.Subset.refl _) node among with none | reaches
  · exact absurd none not_mem_nil
  · exact reaches

/-- Unless it stopped at a cycle, a traversal lists just what is reached from the start. -/
theorem start_complete (through : stops = false ∨ after.cycle = false) (node : Node) :
    node ∈ after.collected ↔ node ≠ start ∧ Reaches next start node := by
  obtain ⟨successors, all⟩ := explores.closed through
  have listed (target : Node) (there : target ∈ [start] ∨ target ∈ after.collected) :
      target = start ∨ target ∈ after.collected :=
    there.imp_left mem_singleton.mp
  constructor
  · intro among
    exact ⟨fun same => start_avoided explores (same ▸ among),
      (start_reached explores node among).to_reflTransGen⟩
  · rintro ⟨other, reaches⟩
    have covered : node = start ∨ node ∈ after.collected := by
      clear other
      induction reaches with
      | refl => exact .inl rfl
      | tail _ edge ih =>
        rcases ih with same | among
        · exact listed _ (successors _ (same ▸ edge))
        · exact listed _ (all _ among not_mem_nil _ edge)
    exact covered.resolve_left other

end

end Start

section Enough
variable [DecidableEq Node] {next : Node → List Node} {stops : Bool}

def missing (nodes collected : List Node) : List Node := nodes.filter fun node => node ∉ collected

theorem missing_le (nodes : List Node) {fewer more : List Node} (kept : fewer ⊆ more) :
    (missing nodes more).length ≤ (missing nodes fewer).length := by
  apply (monotone_filter_right nodes _).length_le
  intro node outside
  exact decide_eq_true fun among => of_decide_eq_true outside (kept among)

theorem missing_lt {nodes collected : List Node} {node : Node} (among : node ∈ nodes)
    (fresh : node ∉ collected) :
    (missing nodes (collected ++ [node])).length < (missing nodes collected).length := by
  have split : missing nodes (collected ++ [node]) =
      (missing nodes collected).filter fun other => other ≠ node := by
    rw [missing, missing, filter_filter]
    apply filter_congr
    intro other _
    simp only [mem_append, mem_singleton, not_or, ne_eq, Bool.decide_and, and_comm]
  rw [split]
  apply length_filter_lt_length_iff_exists.mpr
  refine ⟨node, mem_filter.mpr ⟨among, decide_eq_true fresh⟩, ?_⟩
  exact fun different => of_decide_eq_true different rfl

omit [DecidableEq Node] in
theorem foldl_stopped (pending : List Node) (found : Found Node) (visit : Found Node → Node → Found Node)
    (stopping : stops = true) (met : found.cycle = true) :
    pending.foldl (fun found child => if stops && found.cycle then found else visit found child)
      found = found := by
  induction pending with
  | nil => rfl
  | cons child rest ih =>
    rw [foldl_cons, if_pos (by rw [stopping, met]; rfl)]
    exact ih

/-- Where every node lies in a list, fuel beyond what is missing of it is never used up. -/
theorem explore_explores (nodes : List Node) (within : ∀ node, next node ⊆ nodes) (fuel : Nat)
    (path : List Node) (node : Node) (found : Found Node)
    (enough : (missing nodes found.collected).length < fuel) :
    Explores next stops path (next node) found (explore next stops fuel path node found) := by
  induction fuel generalizing path node found with
  | zero => exact absurd enough (Nat.not_lt_zero _)
  | succ fuel deeper =>
    have inside := within node
    rw [explore]
    generalize next node = pending at inside ⊢
    induction pending generalizing found with
    | nil => exact .done path found
    | cons child rest ih =>
      have later : rest ⊆ nodes := fun _ among => inside (mem_cons_of_mem child among)
      by_cases stopped : (stops && found.cycle) = true
      · obtain ⟨stopping, met⟩ := Bool.and_eq_true_iff.mp stopped
        rw [foldl_stopped _ found _ stopping met]
        exact .stopped path child rest found stopping met
      rw [foldl_cons, if_neg stopped]
      by_cases onPath : child ∈ path
      · rw [if_pos onPath]
        exact .back path child rest found _ onPath (ih found.flag enough later)
      rw [if_neg onPath]
      by_cases known : child ∈ found.collected
      · rw [if_pos known]
        exact .seen path child rest found _ onPath known (ih found enough later)
      rw [if_neg known]
      have fewer := missing_lt (inside mem_cons_self) known
      have below := deeper (child :: path) child (found.collect child)
        (Nat.lt_of_lt_of_le fewer (Nat.le_of_lt_succ enough))
      have kept : found.collected ⊆ _ :=
        List.Subset.trans (subset_append_left _ [child]) below.keeps
      exact .enter path child rest found _ _ onPath known below
        (ih _ (Nat.lt_of_le_of_lt (missing_le nodes kept) enough) later)

end Enough

end PerlLsp.DepthFirst
