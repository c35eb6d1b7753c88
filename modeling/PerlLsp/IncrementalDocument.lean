import PerlLsp.Splice
import PerlLsp.StableSort
import PerlLsp.Utf8

/-! Batches of edits of perl-parser/src/incremental: `normalize_for_source` and
`apply_to_string` of incremental_edit.rs, and `apply_edits` of incremental_document.rs
up to the fresh parse of the new source. A text is the list of its UTF-8 bytes. The
functions are stated for items that have a byte, so that the run which knows where each
byte comes from is a run of the same functions. -/
namespace PerlLsp.IncrementalDocument
open Splice StableSort Utf8 Std List

universe u
variable {Item : Type u}

structure IncrementalEdit (Item : Type u) where
  startByte : Nat
  oldEndByte : Nat
  newText : List Item
  deriving DecidableEq

inductive IncrementalEditRefusal where
  | backwardRange
  | outOfRange
  | notCharBoundary
  deriving DecidableEq

structure InvalidEdit where
  startByte : Nat
  oldEndByte : Nat
  sourceLen : Nat
  reason : IncrementalEditRefusal
  index : Option Nat
  deriving DecidableEq

def IncrementalEdit.patch (edit : IncrementalEdit Item) : Patch Item :=
  ⟨edit.startByte, edit.oldEndByte, edit.newText⟩

/-- `String::replace_range`. -/
def replaceRange (source : List Item) (start stop : Nat) (newText : List Item) : List Item :=
  Patch.apply ⟨start, stop, newText⟩ source

-- The start that lies highest first, then the longest range.
def reverseOrder : IncrementalEdit Item → IncrementalEdit Item → Ordering :=
  compareLex (fun left right => compareOn IncrementalEdit.startByte right left)
    (fun left right => compareOn IncrementalEdit.oldEndByte right left)

instance : TransCmp (@reverseOrder Item) :=
  inferInstanceAs (TransCmp (compareLex
    (fun left right => compareOn IncrementalEdit.startByte right left)
    (fun left right => compareOn IncrementalEdit.oldEndByte right left)))

-- The overlap check; ranges that replace nothing are passed over.
def rangesApart : Option (IncrementalEdit Item) → List (IncrementalEdit Item) → Bool
  | _, [] => true
  | previousNonEmpty, edit :: rest =>
    if edit.startByte = edit.oldEndByte then rangesApart previousNonEmpty rest
    else if previousNonEmpty.any fun previous => previous.startByte < edit.oldEndByte then false
    else rangesApart (some edit) rest

section Texts
variable (byteOf : Item → UInt8)

def isCharBoundary (source : List Item) (offset : Nat) : Bool :=
  if offset = 0 then true
  else
    match source[offset]? with
    | some item => !isContinuation (byteOf item)
    | none => offset == source.length

def isEditMappable (source : List Item) (edit : IncrementalEdit Item) : Bool :=
  if edit.oldEndByte < edit.startByte then false
  else if source.length < edit.oldEndByte then false
  else isCharBoundary byteOf source edit.startByte && isCharBoundary byteOf source edit.oldEndByte

def deterministicOrder : IncrementalEdit Item → IncrementalEdit Item → Ordering :=
  compareLex reverseOrder (compareOn fun edit => edit.newText.map byteOf)

variable (source : List Item)
variable (edits : List (IncrementalEdit Item))

def applyToString : List Item :=
  (sortBy (deterministicOrder byteOf) edits).foldl
    (fun result edit =>
      if isEditMappable byteOf result edit then
        replaceRange result edit.startByte edit.oldEndByte edit.newText
      else result) source

def normalizeForSource : Option (List (IncrementalEdit Item)) :=
  if edits.all (isEditMappable byteOf source) then
    let indexed := sortBy reverseOrder edits
    if rangesApart none indexed then some indexed else none
  else none

def editRefusal (edit : IncrementalEdit Item) : Option IncrementalEditRefusal :=
  if edit.oldEndByte < edit.startByte then some .backwardRange
  else if source.length < edit.oldEndByte then some .outOfRange
  else if !isCharBoundary byteOf source edit.startByte ||
      !isCharBoundary byteOf source edit.oldEndByte then some .notCharBoundary
  else none

def invalidEdit (edit : IncrementalEdit Item) (sourceLen : Nat) (reason : IncrementalEditRefusal)
    (index : Option Nat) : InvalidEdit :=
  ⟨edit.startByte, edit.oldEndByte, sourceLen, reason, index⟩

def tryMapEditRange (source : List Item) (edit : IncrementalEdit Item) : Option (Nat × Nat) :=
  if (editRefusal byteOf source edit).isSome then none else some (edit.startByte, edit.oldEndByte)

def applyEditInPlace (source : List Item) (edit : IncrementalEdit Item) : Option (List Item) :=
  (tryMapEditRange byteOf source edit).map fun range =>
    replaceRange source range.1 range.2 edit.newText

-- The first edit of the batch that does not map onto the source.
def firstRefused (source : List Item) : Nat → List (IncrementalEdit Item) → Option InvalidEdit
  | _, [] => none
  | index, edit :: rest =>
    match editRefusal byteOf source edit with
    | some reason => some (invalidEdit edit source.length reason (some index))
    | none => firstRefused source (index + 1) rest

def applySorted (source : List Item) : List (IncrementalEdit Item) → Except InvalidEdit (List Item)
  | [] => .ok source
  | edit :: rest =>
    match applyEditInPlace byteOf source edit with
    | none => .error (invalidEdit edit source.length .outOfRange none)
    | some newSource => applySorted newSource rest

/-- The source that `apply_edits` parses afresh, or the refusal it returns. -/
def editedSource (source : List Item) (edits : List (IncrementalEdit Item)) :
    Except InvalidEdit (List Item) :=
  if edits.isEmpty then .ok source
  else
    match firstRefused byteOf source 0 edits with
    | some refused => .error refused
    | none =>
      match normalizeForSource byteOf source edits with
      | some sortedEdits => applySorted byteOf source sortedEdits
      | none => .ok (applyToString byteOf source edits)

end Texts

section Mapping
variable {byteOf : Item → UInt8}

theorem mappable_iff (source : List Item) (edit : IncrementalEdit Item) :
    isEditMappable byteOf source edit = true ↔
      edit.startByte ≤ edit.oldEndByte ∧ edit.oldEndByte ≤ source.length ∧
        isCharBoundary byteOf source edit.startByte = true ∧
          isCharBoundary byteOf source edit.oldEndByte = true := by
  rw [isEditMappable]
  split
  · simp only [Bool.false_eq_true, false_iff, not_and]
    omega
  split
  · simp only [Bool.false_eq_true, false_iff, not_and]
    omega
  · rw [Bool.and_eq_true]
    exact ⟨fun both => ⟨by omega, by omega, both⟩, fun all => all.2.2⟩

theorem refusal_none_iff (source : List Item) (edit : IncrementalEdit Item) :
    editRefusal byteOf source edit = none ↔ isEditMappable byteOf source edit = true := by
  rw [editRefusal, isEditMappable]
  split
  · simp
  split
  · simp
  cases isCharBoundary byteOf source edit.startByte with
  | false => simp
  | true =>
    cases isCharBoundary byteOf source edit.oldEndByte with
    | false => simp
    | true => simp

theorem apply_in_place_mappable {source : List Item} {edit : IncrementalEdit Item}
    (mappable : isEditMappable byteOf source edit = true) :
    applyEditInPlace byteOf source edit = some (edit.patch.apply source) := by
  rw [applyEditInPlace, tryMapEditRange, (refusal_none_iff source edit).mpr mappable]
  rfl

theorem apply_in_place_some {source result : List Item} {edit : IncrementalEdit Item}
    (applied : applyEditInPlace byteOf source edit = some result) :
    isEditMappable byteOf source edit = true ∧ result = edit.patch.apply source := by
  have mappable : isEditMappable byteOf source edit = true := by
    rw [applyEditInPlace, tryMapEditRange] at applied
    cases refusal : editRefusal byteOf source edit with
    | none => exact (refusal_none_iff source edit).mp refusal
    | some reason =>
      rw [refusal] at applied
      cases applied
  rw [apply_in_place_mappable mappable] at applied
  exact ⟨mappable, (Option.some.inj applied).symm⟩

theorem first_refused_iff {source : List Item} {edits : List (IncrementalEdit Item)} (index : Nat) :
    firstRefused byteOf source index edits = none ↔
      ∀ edit ∈ edits, isEditMappable byteOf source edit = true := by
  induction edits generalizing index with
  | nil => exact iff_of_true rfl nofun
  | cons edit rest ih =>
    rw [firstRefused, forall_mem_cons, ← refusal_none_iff]
    cases editRefusal byteOf source edit with
    | some reason => exact iff_of_false nofun fun both => nomatch both.1
    | none => exact (ih _).trans (and_iff_right rfl).symm

section
variable {source : List Item} {edits sorted : List (IncrementalEdit Item)}
    (normalized : normalizeForSource byteOf source edits = some sorted)
include source edits sorted normalized

theorem normalized_parts : (∀ edit ∈ edits, isEditMappable byteOf source edit = true) ∧
      sorted = sortBy reverseOrder edits ∧ rangesApart none sorted = true := by
  rw [normalizeForSource] at normalized
  split at normalized
  · rename_i all
    dsimp only at normalized
    split at normalized
    · rename_i apart
      obtain rfl := Option.some.inj normalized
      exact ⟨all_eq_true.mp all, rfl, apart⟩
    · cases normalized
  · cases normalized

theorem edited_source_sorted : editedSource byteOf source edits = applySorted byteOf source sorted := by
  obtain ⟨mappable, rfl, -⟩ := normalized_parts normalized
  rw [editedSource]
  split
  · rename_i none
    rw [List.isEmpty_iff.mp none]
    rfl
  · rw [(first_refused_iff 0).mpr mappable]
    rw [normalized]

end

end Mapping

def Inside (insertion edit : IncrementalEdit Item) : Prop :=
  insertion.startByte = insertion.oldEndByte ∧ insertion.newText ≠ [] ∧
    edit.startByte < insertion.startByte ∧ insertion.startByte < edit.oldEndByte

def Clear (edits : List (IncrementalEdit Item)) : Prop :=
  ∀ insertion ∈ edits, ∀ edit ∈ edits, ¬ Inside insertion edit

def Follows (first second : IncrementalEdit Item) : Prop :=
  second.startByte < first.startByte ∨
    second.startByte = first.startByte ∧ second.oldEndByte ≤ first.oldEndByte

theorem sorted_follows (edits : List (IncrementalEdit Item)) :
    (sortBy reverseOrder edits).Pairwise Follows := by
  apply (sorted_sortBy edits).imp
  intro first second below
  rw [Below, reverseOrder, compareLex, compareOn] at below
  rcases Nat.lt_trichotomy second.startByte first.startByte with less | same | more
  · exact .inl less
  · refine .inr ⟨same, ?_⟩
    rw [Nat.compare_eq_eq.mpr same] at below
    exact Nat.isLE_compare.mp below
  · rw [Nat.compare_eq_gt.mpr more] at below
    cases below

/-- Non-empty ranges of a normalised batch lie apart. -/
theorem ranges_apart_pairwise {edits : List (IncrementalEdit Item)} (follows : edits.Pairwise Follows)
    (ordered : ∀ edit ∈ edits, edit.startByte ≤ edit.oldEndByte)
    (previous : Option (IncrementalEdit Item)) (apart : rangesApart previous edits = true) :
    (∀ last, previous = some last → ∀ edit ∈ edits, edit.startByte < edit.oldEndByte →
        edit.oldEndByte ≤ last.startByte) ∧
      edits.Pairwise fun first second => first.startByte < first.oldEndByte →
        second.startByte < second.oldEndByte → second.oldEndByte ≤ first.startByte := by
  induction edits generalizing previous with
  | nil => exact ⟨fun _ _ edit among => absurd among not_mem_nil, List.Pairwise.nil⟩
  | cons edit rest ih =>
    obtain ⟨first, follows⟩ := pairwise_cons.mp follows
    obtain ⟨shape, ordered⟩ := forall_mem_cons.mp ordered
    rw [rangesApart] at apart
    split at apart
    · rename_i vacant
      obtain ⟨before, pairs⟩ := ih follows ordered previous apart
      constructor
      · intro last same
        exact forall_mem_cons.mpr ⟨fun some => by omega, before last same⟩
      · exact pairwise_cons.mpr ⟨fun _ _ some => by omega, pairs⟩
    · rename_i some
      split at apart
      · cases apart
      rename_i free
      obtain ⟨before, pairs⟩ := ih follows ordered (.some edit) apart
      refine ⟨?_, pairwise_cons.mpr ⟨fun other among _ => before edit rfl other among, pairs⟩⟩
      rintro last rfl
      simp only [Option.any_some, decide_eq_true_eq, Nat.not_lt] at free
      refine forall_mem_cons.mpr ⟨fun _ => free, fun other among nonempty => ?_⟩
      have lower := before edit rfl other among nonempty
      omega

structure Normalised (source : List Item) (sorted : List (IncrementalEdit Item)) : Prop where
  range : ∀ edit ∈ sorted, edit.startByte ≤ edit.oldEndByte ∧ edit.oldEndByte ≤ source.length
  follows : sorted.Pairwise Follows
  apart : sorted.Pairwise fun first second => first.startByte < first.oldEndByte →
    second.startByte < second.oldEndByte → second.oldEndByte ≤ first.startByte

variable {sorted : List (IncrementalEdit Item)}

theorem normalised_sorted {byteOf : Item → UInt8} {source : List Item} {edits : List (IncrementalEdit Item)}
    (normalized : normalizeForSource byteOf source edits = some sorted) :
    sorted.Perm edits ∧ Normalised source sorted := by
  obtain ⟨mappable, rfl, apart⟩ := normalized_parts normalized
  have perm := @sortBy_perm _ reverseOrder edits
  have range : ∀ edit ∈ sortBy reverseOrder edits,
      edit.startByte ≤ edit.oldEndByte ∧ edit.oldEndByte ≤ source.length := by
    intro edit among
    have maps := (mappable_iff source edit).mp (mappable edit (perm.mem_iff.mp among))
    exact ⟨maps.1, maps.2.1⟩
  have pairs := ranges_apart_pairwise (sorted_follows edits) (fun edit among => (range edit among).1)
    none apart
  exact ⟨perm, range, sorted_follows edits, pairs.2⟩

/-- In a clear batch each edit ends before the ones applied earlier start, those apart that
do nothing. -/
theorem Normalised.descending {source : List Item} (normalised : Normalised source sorted)
    (clear : Clear sorted) : sorted.Pairwise fun first second =>
      first.patch.Idle ∨ second.oldEndByte ≤ first.startByte := by
  have pairs := (normalised.follows.and normalised.apart).imp_of_mem
    (S := fun first second => first.patch.Idle ∨ second.oldEndByte ≤ first.startByte) ?_
  · exact pairs
  · rintro first second firstIn secondIn ⟨follows, apart⟩
    have firstShape := (normalised.range first firstIn).1
    have secondShape := (normalised.range second secondIn).1
    by_cases wide : first.startByte < first.oldEndByte
    · by_cases other : second.startByte < second.oldEndByte
      · exact .inr (apart wide other)
      · refine .inr ?_
        unfold Follows at follows
        omega
    · by_cases vacant : first.newText = []
      · exact .inl ⟨Nat.le_antisymm firstShape (Nat.le_of_not_lt wide), vacant⟩
      refine .inr ?_
      have outside := clear first firstIn second secondIn
      unfold Follows at follows
      by_contra reached
      exact outside ⟨by omega, vacant, by omega, by omega⟩

section Applying
variable {byteOf : Item → UInt8}

def StartsWhole (byteOf : Item → UInt8) (text : List Item) : Prop :=
  ∀ item, text.head? = some item → isContinuation (byteOf item) = false

variable {text : List Item}

theorem boundary_kept {edit : IncrementalEdit Item}
    (mappable : isEditMappable byteOf text edit = true) (whole : StartsWhole byteOf edit.newText)
    {offset : Nat} (low : offset ≤ edit.startByte) (boundary : isCharBoundary byteOf text offset = true) :
    isCharBoundary byteOf (edit.patch.apply text) offset = true := by
  obtain ⟨ordered, inside, -, ended⟩ := (mappable_iff text edit).mp mappable
  by_cases zero : offset = 0
  · rw [isCharBoundary, if_pos zero]
  have front : (text.take edit.startByte).length = edit.startByte := by
    rw [length_take]
    omega
  have parts : edit.patch.apply text =
      text.take edit.startByte ++ (edit.newText ++ text.drop edit.oldEndByte) :=
    append_assoc _ _ _
  rw [isCharBoundary, if_neg zero] at boundary ⊢
  rw [parts]
  rcases Nat.lt_or_eq_of_le low with before | rfl
  · rw [getElem?_append_left (by omega), getElem?_take, if_pos before, getElem?_eq_getElem (by omega)]
    rw [getElem?_eq_getElem (by omega)] at boundary
    exact boundary
  rw [getElem?_append_right (by omega), front, Nat.sub_self]
  cases new : edit.newText with
  | cons item rest =>
    have lead := whole item (by rw [new]; rfl)
    rw [cons_append, getElem?_cons_zero]
    simp only [lead, Bool.not_false]
  | nil =>
    rw [nil_append, getElem?_drop]
    rw [isCharBoundary, if_neg (by omega)] at ended
    cases behind : text[edit.oldEndByte]? with
    | some item =>
      rw [behind] at ended
      exact ended
    | none =>
      rw [behind] at ended
      simp only [beq_iff_eq] at ended ⊢
      simp only [length_append, length_drop]
      omega

theorem mappable_kept {edit other : IncrementalEdit Item}
    (mappable : isEditMappable byteOf text edit = true) (whole : StartsWhole byteOf edit.newText)
    (otherMappable : isEditMappable byteOf text other = true) (low : other.oldEndByte ≤ edit.startByte) :
    isEditMappable byteOf (edit.patch.apply text) other = true := by
  obtain ⟨ordered, inside, started, ended⟩ := (mappable_iff text other).mp otherMappable
  refine (mappable_iff _ other).mpr ⟨ordered, ?_, ?_, ?_⟩
  · simp only [Patch.apply, IncrementalEdit.patch, length_append, length_take]
    omega
  · exact boundary_kept mappable whole (Nat.le_trans ordered low) started
  · exact boundary_kept mappable whole low ended

theorem apply_sorted_descending {edits : List (IncrementalEdit Item)}
    (mappable : ∀ edit ∈ edits, isEditMappable byteOf text edit = true)
    (whole : ∀ edit ∈ edits, StartsWhole byteOf edit.newText)
    (descending : edits.Pairwise fun first second =>
      first.patch.Idle ∨ second.oldEndByte ≤ first.startByte) :
    applySorted byteOf text edits = .ok ((edits.map IncrementalEdit.patch).reverse.foldr Patch.apply text) := by
  rw [foldr_reverse]
  induction edits generalizing text with
  | nil => rfl
  | cons edit rest ih =>
    obtain ⟨first, descending⟩ := pairwise_cons.mp descending
    obtain ⟨maps, mappable⟩ := forall_mem_cons.mp mappable
    obtain ⟨lead, whole⟩ := forall_mem_cons.mp whole
    rw [applySorted, apply_in_place_mappable maps]
    refine ih (fun other among => ?_) whole descending
    rcases first other among with idle | low
    · rw [idle.apply]
      exact mappable other among
    · exact mappable_kept maps lead (mappable other among) low

theorem clear_spliced {source : List Item} {edits sorted : List (IncrementalEdit Item)}
    (normalized : normalizeForSource byteOf source edits = some sorted)
    (whole : ∀ edit ∈ edits, StartsWhole byteOf edit.newText) (clear : Clear edits) :
    applySorted byteOf source sorted =
      .ok (simultaneous source (sorted.map IncrementalEdit.patch).reverse) := by
  obtain ⟨perm, normalised⟩ := normalised_sorted normalized
  have mappable := (normalized_parts normalized).1
  have descending := normalised.descending fun insertion among edit other =>
    clear insertion (perm.mem_iff.mp among) edit (perm.mem_iff.mp other)
  have applied := apply_sorted_descending (fun edit among => mappable edit (perm.mem_iff.mp among))
    (fun edit among => whole edit (perm.mem_iff.mp among)) descending
  have active (patch : Patch Item) : Decidable patch.Idle := Classical.propDecidable _
  have idle : ∀ patch ∈ (sorted.map IncrementalEdit.patch).reverse,
      (!decide patch.Idle) = false → patch.Idle := by
    intro patch _ inactive
    simpa using inactive
  have chained : Chained source.length
      ((sorted.map IncrementalEdit.patch).reverse.filter fun patch => !decide patch.Idle) := by
    constructor
    · rw [filter_reverse, pairwise_reverse, pairwise_filter, pairwise_map]
      apply descending.imp
      intro first second low firstActive _
      exact low.resolve_left (by simpa using firstActive)
    · intro patch among
      obtain ⟨edit, held, rfl⟩ := mem_map.mp (mem_reverse.mp (mem_filter.mp among).1)
      exact normalised.range edit held
  rw [applied, ← foldr_apply_idle _ _ _ idle, foldr_apply_simultaneous _ _ chained,
    simultaneous_idle _ _ _ idle]

end Applying

/-- The source with all edits made at once, in its own coordinates; the order of texts placed at one
position is left open. -/
def Spliced (source : List Item) (edits : List (IncrementalEdit Item)) (result : List Item) : Prop :=
  ∃ patches : List (Patch Item),
    patches.Perm (edits.map IncrementalEdit.patch) ∧ result = simultaneous source patches

section Lost
variable {byteOf : Item → UInt8}

theorem apply_sorted_append {text result : List Item} {front back : List (IncrementalEdit Item)}
    (applied : applySorted byteOf text (front ++ back) = .ok result) :
    ∃ middle, applySorted byteOf text front = .ok middle ∧ applySorted byteOf middle back = .ok result := by
  induction front generalizing text with
  | nil => exact ⟨text, rfl, applied⟩
  | cons edit rest ih =>
    rw [cons_append, applySorted] at applied
    rw [applySorted]
    cases next : applyEditInPlace byteOf text edit with
    | none =>
      rw [next] at applied
      cases applied
    | some newSource =>
      rw [next] at applied
      exact ih applied

theorem idle_run {text result : List Item} {edits : List (IncrementalEdit Item)}
    (idle : ∀ edit ∈ edits, edit.patch.Idle)
    (applied : applySorted byteOf text edits = .ok result) : result = text := by
  induction edits generalizing text with
  | nil => exact (Except.ok.inj applied).symm
  | cons edit rest ih =>
    obtain ⟨first, idle⟩ := forall_mem_cons.mp idle
    rw [applySorted] at applied
    cases next : applyEditInPlace byteOf text edit with
    | none =>
      rw [next] at applied
      cases applied
    | some newSource =>
      rw [next] at applied
      obtain ⟨-, rfl⟩ := apply_in_place_some next
      rw [ih idle applied, first.apply]

/-- The last element of a list that has a property. -/
theorem last_with {Kind : Type*} {property : Kind → Prop} {list : List Kind}
    (some : ∃ entry ∈ list, property entry) :
    ∃ front entry back, list = front ++ entry :: back ∧ property entry ∧
      ∀ other ∈ back, ¬ property other := by
  induction list with
  | nil =>
    obtain ⟨_, among, -⟩ := some
    exact absurd among not_mem_nil
  | cons first rest ih =>
    by_cases later : ∃ entry ∈ rest, property entry
    · obtain ⟨front, entry, back, rfl, holds, none⟩ := ih later
      exact ⟨first :: front, entry, back, rfl, holds, none⟩
    obtain ⟨entry, among, holds⟩ := some
    rcases mem_cons.mp among with rfl | behind
    · exact ⟨[], entry, rest, rfl, holds, fun other held has => later ⟨other, held, has⟩⟩
    · exact absurd ⟨entry, behind, holds⟩ later

/-- In a normalised batch the insertions strictly inside a range come right before it: between the
last with a text and the range stand only edits that do nothing. -/
theorem Normalised.last_inside {source : List Item} {sorted : List (IncrementalEdit Item)}
    (normalised : Normalised source sorted) {insertion edit : IncrementalEdit Item}
    (insertionIn : insertion ∈ sorted) (editIn : edit ∈ sorted) (inside : Inside insertion edit) :
    ∃ front last idle back, sorted = front ++ last :: (idle ++ edit :: back) ∧ Inside last edit ∧
      ∀ other ∈ idle, other.patch.Idle := by
  obtain ⟨before, back, rfl⟩ := append_of_mem editIn
  obtain ⟨starts, filled, low, high⟩ := inside
  have early : insertion ∈ before := by
    rcases mem_append.mp insertionIn with here | behind
    · exact here
    rcases mem_cons.mp behind with rfl | later
    · omega
    have follows := (pairwise_cons.mp (pairwise_append.mp normalised.follows).2.1).1 insertion later
    unfold Follows at follows
    omega
  obtain ⟨front, last, idle, rfl, within, none⟩ :=
    @last_with _ (fun other => Inside other edit) before ⟨insertion, early, starts, filled, low, high⟩
  refine ⟨front, last, idle, back, by simp only [append_assoc, cons_append], within, ?_⟩
  intro other among
  have otherIn : other ∈ front ++ last :: idle :=
    mem_append_right _ (mem_cons_of_mem _ among)
  have shape := normalised.range other (mem_append_left _ otherIn)
  have second := (pairwise_append.mp normalised.follows).2.2 other otherIn edit mem_cons_self
  have apart := (pairwise_append.mp normalised.apart).2.2 other otherIn edit mem_cons_self
  have first : Follows last other := by
    have pairs := (pairwise_append.mp normalised.follows).1
    exact (pairwise_cons.mp (pairwise_append.mp pairs).2.1).1 other among
  obtain ⟨vacant, -, lower, upper⟩ := within
  have outside := none other among
  unfold Follows at first second
  have width : other.startByte = other.oldEndByte := by
    omega
  refine ⟨width, ?_⟩
  by_contra text
  exact outside ⟨width, text, by omega, by omega⟩

variable [DecidableEq Item]

theorem count_apply (item : Item) {text : List Item} {edit : IncrementalEdit Item}
    (shape : edit.startByte ≤ edit.oldEndByte) : (edit.patch.apply text).count item +
        ((text.drop edit.startByte).take (edit.oldEndByte - edit.startByte)).count item =
      text.count item + edit.newText.count item := by
  have parts : text = text.take edit.startByte ++
      (text.drop edit.startByte).take (edit.oldEndByte - edit.startByte) ++ text.drop edit.oldEndByte := by
    rw [take_through text shape, take_append_drop]
  have whole := congrArg (List.count item) parts
  rw [count_append, count_append] at whole
  simp only [Patch.apply, IncrementalEdit.patch, count_append]
  omega

theorem count_run (item : Item) {text result : List Item} {edits : List (IncrementalEdit Item)}
    (applied : applySorted byteOf text edits = .ok result) :
    result.count item ≤ text.count item + (edits.flatMap IncrementalEdit.newText).count item := by
  induction edits generalizing text with
  | nil =>
    obtain rfl := Except.ok.inj applied
    exact Nat.le_add_right _ _
  | cons edit rest ih =>
    rw [applySorted] at applied
    cases next : applyEditInPlace byteOf text edit with
    | none =>
      rw [next] at applied
      cases applied
    | some newSource =>
      rw [next] at applied
      obtain ⟨maps, rfl⟩ := apply_in_place_some next
      have later := ih applied
      have step := @count_apply _ _ item text edit ((mappable_iff text edit).mp maps).1
      rw [flatMap_cons, count_append]
      omega

/-- Where no item comes twice, an insertion strictly inside a replaced range is lost. -/
theorem inside_lost {source result : List Item} {sorted : List (IncrementalEdit Item)}
    (normalised : Normalised source sorted)
    (distinct : (source ++ sorted.flatMap IncrementalEdit.newText).Nodup)
    (applied : applySorted byteOf source sorted = .ok result)
    {insertion edit : IncrementalEdit Item} (insertionIn : insertion ∈ sorted)
    (editIn : edit ∈ sorted) (inside : Inside insertion edit) :
    ∃ lost ∈ sorted, ∃ item ∈ lost.newText, item ∉ result := by
  obtain ⟨front, last, idle, back, rfl, ⟨vacant, filled, low, high⟩, nothing⟩ :=
    normalised.last_inside insertionIn editIn inside
  obtain ⟨item, rest, text⟩ := exists_cons_of_ne_nil filled
  refine ⟨last, mem_append_right _ mem_cons_self, item, by rw [text]; exact mem_cons_self, ?_⟩
  obtain ⟨first, reached, applied⟩ := apply_sorted_append applied
  rw [applySorted] at applied
  cases lastApplied : applyEditInPlace byteOf first last with
  | none =>
    rw [lastApplied] at applied
    cases applied
  | some second =>
    rw [lastApplied] at applied
    obtain ⟨third, unchanged, remaining⟩ := apply_sorted_append applied
    obtain rfl := idle_run nothing unchanged
    rw [applySorted] at remaining
    cases editApplied : applyEditInPlace byteOf third edit with
    | none =>
      rw [editApplied] at remaining
      cases remaining
    | some fourth =>
      rw [editApplied] at remaining
      obtain ⟨lastMaps, rfl⟩ := apply_in_place_some lastApplied
      obtain ⟨editMaps, rfl⟩ := apply_in_place_some editApplied
      obtain ⟨-, lastInside, -⟩ := (mappable_iff _ last).mp lastMaps
      obtain ⟨editShape, editInside, -⟩ := (mappable_iff _ edit).mp editMaps
      -- The inserted text starts within the bytes that the range removes.
      have placed : (last.patch.apply first)[last.startByte]? = some item := by
        have width : (first.take last.startByte).length = last.startByte := by
          rw [length_take]
          omega
        simp only [Patch.apply, IncrementalEdit.patch, append_assoc]
        rw [getElem?_append_right (by omega), width, Nat.sub_self, text]
        rfl
      have removed : item ∈ ((last.patch.apply first).drop edit.startByte).take
          (edit.oldEndByte - edit.startByte) := by
        apply mem_of_getElem? (i := last.startByte - edit.startByte)
        rw [getElem?_take, if_pos (by omega), getElem?_drop, Nat.add_sub_of_le (Nat.le_of_lt low)]
        exact placed
      have once := nodup_iff_count_le_one.mp distinct item
      have one := count_run item reached
      have two := @count_apply _ _ item first last (Nat.le_of_eq vacant)
      have three := @count_apply _ _ item (last.patch.apply first) edit editShape
      have four := count_run item remaining
      have positive := count_pos_iff.mpr removed
      simp only [flatMap_append, flatMap_cons, count_append] at once
      exact count_eq_zero.mp (by omega)

end Lost

def IncrementalEdit.map {Other : Type*} (relabel : Item → Other) (edit : IncrementalEdit Item) :
    IncrementalEdit Other := ⟨edit.startByte, edit.oldEndByte, edit.newText.map relabel⟩

section Erasing
variable (byteOf : Item → UInt8)

theorem char_boundary_erased (source : List Item) (offset : Nat) :
    isCharBoundary id (source.map byteOf) offset = isCharBoundary byteOf source offset := by
  rw [isCharBoundary, isCharBoundary, getElem?_map, length_map]
  cases source[offset]? with
  | none => rfl
  | some item => rfl

section
variable (source : List Item) (edit : IncrementalEdit Item)
include source edit

theorem mappable_erased :
    isEditMappable id (source.map byteOf) (edit.map byteOf) = isEditMappable byteOf source edit := by
  rw [isEditMappable, char_boundary_erased, char_boundary_erased, length_map]
  rfl

theorem refusal_erased :
    editRefusal id (source.map byteOf) (edit.map byteOf) = editRefusal byteOf source edit := by
  rw [editRefusal, char_boundary_erased, char_boundary_erased, length_map]
  rfl

theorem replaced_erased :
    (edit.map byteOf).patch.apply (source.map byteOf) = (edit.patch.apply source).map byteOf := by
  simp only [Patch.apply, IncrementalEdit.patch, IncrementalEdit.map, map_append, map_take, map_drop]

theorem applied_erased : applyEditInPlace id (source.map byteOf) (edit.map byteOf) =
      (applyEditInPlace byteOf source edit).map (List.map byteOf) := by
  cases maps : isEditMappable byteOf source edit with
  | true =>
    rw [apply_in_place_mappable maps, apply_in_place_mappable
      (by rw [mappable_erased, maps]), replaced_erased]
    rfl
  | false =>
    have refused (other : Option (List Item)) (same : applyEditInPlace byteOf source edit = other) :
        other = none := by
      cases other with
      | none => rfl
      | some result => exact absurd (apply_in_place_some same).1 (by rw [maps]; simp)
    rw [refused _ rfl]
    cases erased : applyEditInPlace id (source.map byteOf) (edit.map byteOf) with
    | none => rfl
    | some result =>
      have maps' := (apply_in_place_some erased).1
      rw [mappable_erased, maps] at maps'
      cases maps'

end

theorem sorted_erased (edits : List (IncrementalEdit Item)) :
    sortBy reverseOrder (edits.map (IncrementalEdit.map byteOf)) =
      (sortBy reverseOrder edits).map (IncrementalEdit.map byteOf) := by
  refine (map_insertionSort _ _ (IncrementalEdit.map byteOf) edits fun left _ right _ => ?_).symm
  rfl

theorem sorted_texts_erased (edits : List (IncrementalEdit Item)) :
    sortBy (deterministicOrder id) (edits.map (IncrementalEdit.map byteOf)) =
      (sortBy (deterministicOrder byteOf) edits).map (IncrementalEdit.map byteOf) := by
  refine (map_insertionSort _ _ _ _ fun left _ right _ => ?_).symm
  have text (edit : IncrementalEdit Item) :
      (edit.map byteOf).newText.map id = edit.newText.map byteOf := map_id _
  rw [Below, Below, deterministicOrder, deterministicOrder, compareLex, compareLex, compareOn,
    compareOn, text, text]
  rfl

theorem ranges_apart_erased (previous : Option (IncrementalEdit Item))
    (edits : List (IncrementalEdit Item)) :
    rangesApart (previous.map (IncrementalEdit.map byteOf)) (edits.map (IncrementalEdit.map byteOf)) =
      rangesApart previous edits := by
  induction edits generalizing previous with
  | nil => rfl
  | cons edit rest ih =>
    rw [map_cons, rangesApart, rangesApart, ih previous, Option.any_map, ← ih (some edit)]
    rfl

theorem normalized_erased (source : List Item) (edits : List (IncrementalEdit Item)) :
    normalizeForSource id (source.map byteOf) (edits.map (IncrementalEdit.map byteOf)) =
      (normalizeForSource byteOf source edits).map (List.map (IncrementalEdit.map byteOf)) := by
  have all : (edits.map (IncrementalEdit.map byteOf)).all (isEditMappable id (source.map byteOf)) =
      edits.all (isEditMappable byteOf source) := by
    rw [all_map]
    exact congrArg edits.all (funext (mappable_erased byteOf source))
  have apart := ranges_apart_erased byteOf none (sortBy reverseOrder edits)
  rw [normalizeForSource, normalizeForSource, all, sorted_erased]
  dsimp only
  rw [Option.map_none] at apart
  rw [apart]
  split
  · split
    · rfl
    · rfl
  · rfl

theorem first_refused_erased (source : List Item) (index : Nat) (edits : List (IncrementalEdit Item)) :
    firstRefused id (source.map byteOf) index (edits.map (IncrementalEdit.map byteOf)) =
      firstRefused byteOf source index edits := by
  induction edits generalizing index with
  | nil => rfl
  | cons edit rest ih =>
    rw [map_cons, firstRefused, firstRefused, refusal_erased, ih, length_map]
    rfl

section
variable (source : List Item) (edits : List (IncrementalEdit Item))
include source edits

theorem apply_sorted_erased : applySorted id (source.map byteOf) (edits.map (IncrementalEdit.map byteOf)) =
      (applySorted byteOf source edits).map (List.map byteOf) := by
  induction edits generalizing source with
  | nil => rfl
  | cons edit rest ih =>
    rw [map_cons, applySorted, applySorted, applied_erased, length_map]
    cases applyEditInPlace byteOf source edit with
    | none => rfl
    | some newSource => exact ih newSource

theorem applied_string_erased :
    applyToString id (source.map byteOf) (edits.map (IncrementalEdit.map byteOf)) =
      (applyToString byteOf source edits).map byteOf := by
  rw [applyToString, applyToString, sorted_texts_erased, foldl_map]
  induction sortBy (deterministicOrder byteOf) edits generalizing source with
  | nil => rfl
  | cons edit rest ih =>
    rw [foldl_cons, foldl_cons, mappable_erased, ← ih]
    congr 1
    split
    · exact replaced_erased byteOf source edit
    · rfl

/-- The run that keeps what the items carry beside their bytes is the run on the bytes. -/
theorem edited_source_erased : editedSource id (source.map byteOf) (edits.map (IncrementalEdit.map byteOf)) =
      (editedSource byteOf source edits).map (List.map byteOf) := by
  rw [editedSource, editedSource, first_refused_erased, normalized_erased, applied_string_erased,
    isEmpty_map]
  split
  · rfl
  cases firstRefused byteOf source 0 edits with
  | some refused => rfl
  | none =>
    cases normalizeForSource byteOf source edits with
    | none => rfl
    | some sorted => exact apply_sorted_erased byteOf source sorted

end

theorem clear_erased (edits : List (IncrementalEdit Item)) :
    Clear (edits.map (IncrementalEdit.map byteOf)) ↔ Clear edits := by
  have same (insertion edit : IncrementalEdit Item) :
      Inside (insertion.map byteOf) (edit.map byteOf) ↔ Inside insertion edit := by
    unfold Inside
    simp only [IncrementalEdit.map, ne_eq, map_eq_nil_iff]
  unfold Clear
  simp only [forall_mem_map, same]

end Erasing

/-- A byte, the text it comes from and its place there. -/
abbrev Traced := UInt8 × Nat × Nat

def traceText (origin : Nat) (text : List UInt8) : List Traced :=
  text.zipIdx.map fun entry => (entry.1, origin, entry.2)

def traceEdits : Nat → List (IncrementalEdit UInt8) → List (IncrementalEdit Traced)
  | _, [] => []
  | origin, edit :: rest =>
    ⟨edit.startByte, edit.oldEndByte, traceText origin edit.newText⟩ :: traceEdits (origin + 1) rest

variable {item : Traced} (origin : Nat) (text : List UInt8)

theorem trace_text_erased : (traceText origin text).map Prod.fst = text := by
  rw [traceText, map_map]
  exact zipIdx_map_fst 0 text

theorem trace_edits_erased (edits : List (IncrementalEdit UInt8)) :
    (traceEdits origin edits).map (IncrementalEdit.map Prod.fst) = edits := by
  induction edits generalizing origin with
  | nil => rfl
  | cons edit rest ih =>
    rw [traceEdits, map_cons, ih, IncrementalEdit.map, trace_text_erased]

theorem trace_text_nodup : (traceText origin text).Nodup := by
  apply List.Nodup.of_map fun item : Traced => item.2.2
  have places : (traceText origin text).map (fun item => item.2.2) = List.range' 0 text.length := by
    rw [traceText, map_map]
    exact zipIdx_map_snd 0 text
  rw [places]
  exact nodup_range'

theorem trace_text_origin {origin : Nat} {text : List UInt8} (held : item ∈ traceText origin text) :
    item.2.1 = origin := by
  obtain ⟨entry, -, rfl⟩ := mem_map.mp held
  rfl

theorem trace_edits_origin {origin : Nat} {edits : List (IncrementalEdit UInt8)}
    (held : item ∈ (traceEdits origin edits).flatMap IncrementalEdit.newText) : origin ≤ item.2.1 := by
  induction edits generalizing origin with
  | nil => exact absurd held not_mem_nil
  | cons edit rest ih =>
    rcases mem_append.mp held with first | later
    · exact Nat.le_of_eq (trace_text_origin first).symm
    · exact Nat.le_of_succ_le (ih later)

/-- No two bytes of a traced source and its traced texts are alike. -/
theorem traced_distinct (source : List UInt8) (edits : List (IncrementalEdit UInt8)) :
    (traceText origin source ++ (traceEdits (origin + 1) edits).flatMap IncrementalEdit.newText).Nodup := by
  refine nodup_append.mpr ⟨trace_text_nodup origin source, ?_, ?_⟩
  · induction edits generalizing origin source with
    | nil => exact nodup_nil
    | cons edit rest ih =>
      refine nodup_append.mpr ⟨trace_text_nodup _ _, ih (origin + 1) edit.newText, ?_⟩
      rintro item first other second rfl
      have own := trace_text_origin first
      have later := trace_edits_origin second
      omega
  · rintro item first other second rfl
    have own := trace_text_origin first
    have later := trace_edits_origin second
    omega

theorem valid_starts_whole {text : List UInt8} (valid : Valid text) : StartsWhole id text := by
  obtain ⟨scalars, rfl⟩ := valid
  intro byte first
  cases scalars with
  | nil => cases first
  | cons scalar rest =>
    obtain ⟨lead, tail, shape, start, -⟩ := encoded_tail scalar
    rw [encode_cons, shape] at first
    obtain rfl := Option.some.inj first
    exact start

theorem spliced_clear {byteOf : Item → UInt8} [DecidableEq Item] {source result : List Item}
    {edits : List (IncrementalEdit Item)} (normalized : normalizeForSource byteOf source edits = some sorted)
    (distinct : (source ++ edits.flatMap IncrementalEdit.newText).Nodup)
    (edited : editedSource byteOf source edits = .ok result) (spliced : Spliced source edits result) :
    Clear edits := by
  obtain ⟨perm, normalised⟩ := normalised_sorted normalized
  intro insertion insertionIn edit editIn inside
  have texts := (perm.flatMap_right IncrementalEdit.newText).append_left source
  obtain ⟨lost, lostIn, item, held, gone⟩ := inside_lost normalised
    (texts.nodup_iff.mpr distinct) (edited_source_sorted normalized ▸ edited)
    (perm.mem_iff.mpr insertionIn) (perm.mem_iff.mpr editIn) inside
  obtain ⟨patches, same, rfl⟩ := spliced
  have patched : lost.patch ∈ patches :=
    same.mem_iff.mpr (mem_map_of_mem (perm.mem_iff.mp lostIn))
  have shape := normalised.range lost lostIn
  exact gone (items_in_simultaneous source patched (Nat.le_trans shape.1 shape.2) held)

/-- The run that knows where each byte comes from is the program's run. It makes all edits at once
exactly when no text is inserted strictly inside a replaced range, and then the program's result is
that splice. -/
theorem normalized_batch_spliced (source : List UInt8) (edits sorted : List (IncrementalEdit UInt8))
    (valid : ∀ edit ∈ edits, Valid edit.newText)
    (normalized : normalizeForSource id source edits = some sorted) :
    (editedSource Prod.fst (traceText 0 source) (traceEdits 1 edits)).map (List.map Prod.fst) =
        editedSource id source edits ∧
      ((∃ result, editedSource Prod.fst (traceText 0 source) (traceEdits 1 edits) = .ok result ∧
          Spliced (traceText 0 source) (traceEdits 1 edits) result) ↔ Clear edits) ∧
      (Clear edits → ∃ result, editedSource id source edits = .ok result ∧
        Spliced source edits result) := by
  have erased := edited_source_erased Prod.fst (traceText 0 source) (traceEdits 1 edits)
  have sameOrder := normalized_erased Prod.fst (traceText 0 source) (traceEdits 1 edits)
  have sameClear := clear_erased Prod.fst (traceEdits 1 edits)
  rw [trace_text_erased, trace_edits_erased] at erased sameOrder
  rw [trace_edits_erased] at sameClear
  rw [normalized] at sameOrder
  obtain ⟨traced, tracedOrder, -⟩ := Option.map_eq_some_iff.mp sameOrder.symm
  have splices {Kind : Type} (byteOf : Kind → UInt8) (text : List Kind)
      (batch order : List (IncrementalEdit Kind))
      (ordered : normalizeForSource byteOf text batch = some order)
      (whole : ∀ edit ∈ batch, StartsWhole byteOf edit.newText) (clear : Clear batch) :
      ∃ result, editedSource byteOf text batch = .ok result ∧ Spliced text batch result := by
    refine ⟨_, (edited_source_sorted ordered).trans (clear_spliced ordered whole clear), _, ?_, rfl⟩
    exact (reverse_perm _).trans ((normalised_sorted ordered).1.map _)
  refine ⟨erased.symm, ⟨?_, fun clear => ?_⟩, fun clear => ?_⟩
  · rintro ⟨result, edited, spliced⟩
    exact sameClear.mpr (spliced_clear tracedOrder (traced_distinct 0 source edits) edited spliced)
  · refine splices Prod.fst _ _ traced tracedOrder (fun edit among => ?_) (sameClear.mp clear)
    have plain : edit.map Prod.fst ∈ edits := by
      rw [← trace_edits_erased 1 edits]
      exact mem_map_of_mem among
    intro item first
    apply valid_starts_whole (valid _ plain)
    simp only [IncrementalEdit.map, head?_map, first, Option.map_some]
  · exact splices id source edits sorted normalized
      (fun edit among => valid_starts_whole (valid edit among)) clear

/-- `abcd` -/
def letters : List UInt8 := [0x61, 0x62, 0x63, 0x64]

/-- `X` put in at 2. -/
def insertX : IncrementalEdit UInt8 := ⟨2, 2, [0x58]⟩

/-- `Y` for the bytes from 1 to 3. -/
def replaceY : IncrementalEdit UInt8 := ⟨1, 3, [0x59]⟩

/-- `Y` for the bytes from 2 to 3. -/
def replaceBehind : IncrementalEdit UInt8 := ⟨2, 3, [0x59]⟩

theorem insertion_at_start_spliced : ∃ result,
    editedSource id letters [insertX, replaceBehind] = .ok result ∧
      Spliced letters [insertX, replaceBehind] result := by
  have valid : ∀ edit ∈ [insertX, replaceBehind], Valid edit.newText := by
    intro edit among
    rcases mem_cons.mp among with rfl | other
    · exact ⟨['X'], by decide⟩
    · obtain rfl := mem_singleton.mp other
      exact ⟨['Y'], by decide⟩
  refine (normalized_batch_spliced letters [insertX, replaceBehind] [replaceBehind, insertX] valid
    (by decide)).2.2 ?_
  unfold Clear Inside
  decide

theorem insertion_inside_lost :
    normalizeForSource id letters [insertX, replaceY] = some [insertX, replaceY] ∧
      editedSource id letters [insertX, replaceY] = .ok [0x61, 0x59, 0x63, 0x64] ∧
      ¬ Spliced letters [insertX, replaceY] [0x61, 0x59, 0x63, 0x64] := by
  refine ⟨by decide, by decide, ?_⟩
  rintro ⟨patches, same, result⟩
  have put : (0x58 : UInt8) ∈ simultaneous letters patches :=
    items_in_simultaneous letters (same.mem_iff.mpr mem_cons_self) (by decide) mem_cons_self
  rw [← result] at put
  exact absurd put (by decide)

instance : TransCmp (@deterministicOrder UInt8 id) :=
  inferInstanceAs (TransCmp (compareLex reverseOrder (compareOn fun edit => edit.newText.map id)))

/-- The order in which a batch names its edits has no say in the text it makes, unless two of them
replace the same range. -/
theorem batch_order_free (source : List UInt8) {edits others : List (IncrementalEdit UInt8)}
    (perm : others.Perm edits) (apart : ∀ left ∈ others, ∀ right ∈ others,
      left.startByte = right.startByte → left.oldEndByte = right.oldEndByte → left = right) :
    (editedSource id source others).toOption = (editedSource id source edits).toOption := by
  have same (left) (leftIn : left ∈ others) (right) (rightIn : right ∈ others)
      (tied : reverseOrder left right = .eq) : left = right := by
    obtain ⟨start, stop⟩ := compareLex_eq_eq.mp tied
    exact apart left leftIn right rightIn (Std.compare_eq_iff_eq.mp start).symm
      (Std.compare_eq_iff_eq.mp stop).symm
  have ranges : sortBy reverseOrder others = sortBy reverseOrder edits := sortBy_congr perm same
  have texts : sortBy (deterministicOrder id) others = sortBy (deterministicOrder id) edits :=
    sortBy_congr perm fun left leftIn right rightIn tied =>
      same left leftIn right rightIn (compareLex_eq_eq.mp tied).1
  have refused : firstRefused id source 0 others = none ↔ firstRefused id source 0 edits = none := by
    rw [first_refused_iff, first_refused_iff]
    exact forall_congr' fun edit => by rw [perm.mem_iff]
  rw [editedSource, editedSource, perm.isEmpty_eq, normalizeForSource, normalizeForSource, ranges,
    perm.all_eq, applyToString, applyToString, texts]
  split
  · rfl
  cases one : firstRefused id source 0 others with
  | none => rw [refused.mp one]
  | some error =>
    cases two : firstRefused id source 0 edits with
    | none => cases one.symm.trans (refused.mpr two)
    | some _ => rfl

theorem batch_order_free_swapped : (editedSource id letters [insertX, replaceY]).toOption =
    (editedSource id letters [replaceY, insertX]).toOption :=
  batch_order_free letters (.swap _ _ _) (by simp [insertX, replaceY])

end PerlLsp.IncrementalDocument
