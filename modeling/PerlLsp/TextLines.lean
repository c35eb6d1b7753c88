import PerlLsp.Utf8

/-! Lines of a text under an arbitrary separator rule. A rule cuts the first line
off a text: its content, its separator and what follows. Everything else here is
about the addresses the rule induces: a line number together with the number of
code units before a place in the line's content. Addresses and byte offsets
determine each other and are ordered alike, whatever the code units are. -/
namespace PerlLsp.TextLines
open Utf8

structure Cut (text : List Char) where
  content : List Char
  separator : List Char
  rest : List Char
  whole : text = content ++ separator ++ rest
  last : separator = [] → rest = []

def weight (measure : Char → Nat) (text : List Char) : Nat := (text.map measure).sum

section Weight
variable (measure : Char → Nat)

@[simp] theorem weight_nil : weight measure [] = 0 := rfl

@[simp] theorem weight_cons (scalar : Char) (rest : List Char) :
    weight measure (scalar :: rest) = measure scalar + weight measure rest := by
  simp [weight]

@[simp] theorem weight_append (left right : List Char) :
    weight measure (left ++ right) = weight measure left + weight measure right := by
  simp [weight]

theorem size_weight (text : List Char) : size text = weight Char.utf8Size text := by
  induction text with
  | nil => rfl
  | cons scalar rest ih => rw [size_cons, weight_cons, ih]

theorem weight_zero (positive : ∀ scalar, 0 < measure scalar) (text : List Char)
    (zero : weight measure text = 0) : text = [] := by
  cases text with
  | nil => rfl
  | cons scalar rest =>
    have one := positive scalar
    rw [weight_cons] at zero
    omega

/-- Two front parts of one text compare alike under all positive measures. -/
theorem front_order (other : Char → Nat) (positive : ∀ scalar, 0 < other scalar)
    (left leftRest right rightRest : List Char) (same : left ++ leftRest = right ++ rightRest)
    (less : weight measure left < weight measure right) : weight other left < weight other right := by
  rcases List.append_eq_append_iff.mp same with ⟨more, grown, -⟩ | ⟨more, shrunk, -⟩
  · have some : more ≠ [] := by
      rintro rfl
      rw [grown, List.append_nil] at less
      omega
    have extra : weight other more ≠ 0 := fun zero => some (weight_zero other positive more zero)
    rw [grown, weight_append]
    omega
  · rw [shrunk, weight_append] at less
    omega

theorem front_unique (positive : ∀ scalar, 0 < measure scalar)
    (left leftRest right rightRest : List Char) (same : left ++ leftRest = right ++ rightRest)
    (equal : weight measure left = weight measure right) : left = right := by
  rcases List.append_eq_append_iff.mp same with ⟨more, grown, -⟩ | ⟨more, shrunk, -⟩
  · rw [grown, weight_append] at equal
    rw [grown, weight_zero measure positive more (by omega), List.append_nil]
  · rw [shrunk, weight_append] at equal
    rw [shrunk, weight_zero measure positive more (by omega), List.append_nil]

end Weight

section Rule
variable (cut : (text : List Char) → Cut text)

/-- Line `line` of the text has this content, with these parts around it. -/
inductive LineAt : List Char → Nat → List Char → List Char → List Char → Prop where
  | first (text : List Char) :
      LineAt text 0 [] (cut text).content ((cut text).separator ++ (cut text).rest)
  | next (text : List Char) (line : Nat) (before content after : List Char) :
      (cut text).separator ≠ [] → LineAt (cut text).rest line before content after →
      LineAt text (line + 1) ((cut text).content ++ (cut text).separator ++ before) content after

/-- Line `line` starts behind `before`, with `tail` ahead of it. -/
inductive StartsAt : List Char → Nat → List Char → List Char → Prop where
  | first (text : List Char) : StartsAt text 0 [] text
  | next (text : List Char) (line : Nat) (before tail : List Char) :
      (cut text).separator ≠ [] → StartsAt (cut text).rest line before tail →
      StartsAt text (line + 1) ((cut text).content ++ (cut text).separator ++ before) tail

variable {cut}

theorem rest_shorter (text : List Char) (separated : (cut text).separator ≠ []) :
    (cut text).rest.length < text.length := by
  have whole := congrArg List.length (cut text).whole
  rw [List.length_append, List.length_append] at whole
  have some := List.length_pos_of_ne_nil separated
  omega

section
variable {text before tail : List Char} {line : Nat} (found : StartsAt cut text line before tail)
include text before tail line found

theorem start_whole : text = before ++ tail := by
  induction found with
  | first text => rfl
  | next text line before tail _ _ ih =>
    have whole := (cut text).whole
    rw [ih] at whole
    simpa using whole

theorem start_line :
    LineAt cut text line before (cut tail).content ((cut tail).separator ++ (cut tail).rest) := by
  induction found with
  | first text => exact .first text
  | next text line before tail separated _ ih => exact .next text line before _ _ separated ih

end

variable {content after before' : List Char} {line' : Nat}

theorem line_start (found : LineAt cut text line before content after) :
    ∃ tail, StartsAt cut text line before tail ∧ (cut tail).content = content ∧
      (cut tail).separator ++ (cut tail).rest = after := by
  induction found with
  | first text => exact ⟨text, .first text, rfl, rfl⟩
  | next text line before content after separated _ ih =>
    obtain ⟨tail, starts, inside, behind⟩ := ih
    exact ⟨tail, .next text line before tail separated starts, inside, behind⟩

theorem start_step (found : StartsAt cut text line before tail) (separated : (cut tail).separator ≠ []) :
    StartsAt cut text (line + 1) (before ++ (cut tail).content ++ (cut tail).separator) (cut tail).rest := by
  induction found with
  | first text =>
    have step := StartsAt.next text 0 [] (cut text).rest separated (.first _)
    simpa using step
  | next text line before tail first _ ih =>
    have step := StartsAt.next text (line + 1) _ _ first (ih separated)
    simpa using step

theorem start_unique {tail' : List Char} (left : StartsAt cut text line before tail)
    (right : StartsAt cut text line before' tail') : before = before' ∧ tail = tail' := by
  induction left generalizing before' tail' with
  | first text =>
    cases right
    exact ⟨rfl, rfl⟩
  | next text line before tail _ _ ih =>
    cases right with
    | next _ _ _ _ _ inner =>
      obtain ⟨rfl, rfl⟩ := ih inner
      exact ⟨rfl, rfl⟩

/-- A later line starts at or behind the end of an earlier one's separator. -/
theorem start_apart {tail' : List Char} (left : StartsAt cut text line before tail)
    (right : StartsAt cut text line' before' tail') (less : line < line') : (cut tail).separator ≠ [] ∧
      size before + size (cut tail).content + size (cut tail).separator ≤ size before' := by
  induction left generalizing line' before' tail' with
  | first text =>
    cases right with
    | first => omega
    | next _ _ inner _ separated _ =>
      refine ⟨separated, ?_⟩
      simp only [size_append, size_nil]
      omega
  | next text line before tail _ _ ih =>
    cases right with
    | first => omega
    | next _ _ inner _ _ rest =>
      obtain ⟨separated, apart⟩ := ih rest (by omega)
      refine ⟨separated, ?_⟩
      simp only [size_append]
      omega

/-- The offset lies in the row: at or behind its start and, unless it is the last one, before its
separator's end. -/
def InRow (cut : (text : List Char) → Cut text) (before tail : List Char) (offset : Nat) : Prop :=
  size before ≤ offset ∧ ((cut tail).separator ≠ [] →
    offset < size before + size (cut tail).content + size (cut tail).separator)

theorem row_exists (text : List Char) (offset : Nat) :
    ∃ line before tail, StartsAt cut text line before tail ∧ InRow cut before tail offset := by
  induction total : text.length using Nat.strong_induction_on generalizing text offset with
  | _ length ih =>
    subst total
    by_cases here : (cut text).separator ≠ [] ∧ size (cut text).content + size (cut text).separator ≤ offset
    · obtain ⟨line, before, tail, starts, low, high⟩ := ih _ (rest_shorter text here.1)
        (cut text).rest (offset - (size (cut text).content + size (cut text).separator)) rfl
      refine ⟨line + 1, _, tail, .next text line before tail here.1 starts, ?_, ?_⟩
      · simp only [size_append]
        omega
      · intro separated
        have bound := high separated
        simp only [size_append]
        omega
    · refine ⟨0, [], text, .first text, Nat.zero_le _, ?_⟩
      intro separated
      have bound := not_and.mp here separated
      omega

theorem row_unique {tail' : List Char} {offset : Nat} (left : StartsAt cut text line before tail)
    (leftRow : InRow cut before tail offset) (right : StartsAt cut text line' before' tail')
    (rightRow : InRow cut before' tail' offset) : line = line' := by
  rcases Nat.lt_trichotomy line line' with less | same | more
  · obtain ⟨separated, apart⟩ := start_apart left right less
    have inside := leftRow.2 separated
    have start := rightRow.1
    omega
  · exact same
  · obtain ⟨separated, apart⟩ := start_apart right left more
    have inside := rightRow.2 separated
    have start := leftRow.1
    omega

theorem line_whole (found : LineAt cut text line before content after) :
    text = before ++ content ++ after := by
  induction found with
  | first text =>
    have whole := (cut text).whole
    simpa using whole
  | next text line before content after _ _ ih =>
    have whole := (cut text).whole
    rw [ih] at whole
    simpa using whole

theorem line_unique {content' after' : List Char} (left : LineAt cut text line before content after)
    (right : LineAt cut text line before' content' after') :
    before = before' ∧ content = content' ∧ after = after' := by
  induction left generalizing before' content' after' with
  | first text =>
    cases right
    exact ⟨rfl, rfl, rfl⟩
  | next text line before content after _ _ ih =>
    cases right with
    | next _ _ inner _ _ _ tail =>
      obtain ⟨rfl, rfl, rfl⟩ := ih tail
      exact ⟨rfl, rfl, rfl⟩

/-- A later line starts behind the end of an earlier one. -/
theorem line_apart {content' after' : List Char} (left : LineAt cut text line before content after)
    (right : LineAt cut text line' before' content' after') (less : line < line') :
    size before + size content < size before' := by
  induction left generalizing line' before' content' after' with
  | first text =>
    cases right with
    | first => omega
    | next _ _ inner _ _ separated _ =>
      have width : size (cut text).separator ≠ 0 := fun zero => separated (size_zero _ zero)
      simp only [size_append, size_nil]
      omega
  | next text line before content after _ _ ih =>
    cases right with
    | first => omega
    | next _ _ inner _ _ _ tail =>
      have apart := ih tail (by omega)
      simp only [size_append]
      omega

def Address (cut : (text : List Char) → Cut text) (measure : Char → Nat) (text : List Char)
    (line units offset : Nat) : Prop :=
  ∃ before front back after, LineAt cut text line before (front ++ back) after ∧
    weight measure front = units ∧ size before + size front = offset

variable {measure : Char → Nat}

theorem address_less {units offset units' offset' : Nat} (left : Address cut measure text line units offset)
    (right : Address cut measure text line' units' offset')
    (less : line < line' ∨ line = line' ∧ units < units') : offset < offset' := by
  obtain ⟨before, front, back, after, here, rfl, rfl⟩ := left
  obtain ⟨before', front', back', after', there, rfl, rfl⟩ := right
  rcases less with later | ⟨rfl, further⟩
  · have apart := line_apart here there later
    rw [size_append] at apart
    omega
  obtain ⟨rfl, same, rfl⟩ := line_unique here there
  have wider := front_order measure Char.utf8Size Char.utf8Size_pos _ _ _ _ same further
  rw [← size_weight, ← size_weight] at wider
  omega

/-- Offsets are ordered as addresses are, line first. -/
theorem address_order (positive : ∀ scalar, 0 < measure scalar) {units offset units' offset' : Nat}
    (left : Address cut measure text line units offset)
    (right : Address cut measure text line' units' offset') :
    offset < offset' ↔ line < line' ∨ line = line' ∧ units < units' := by
  constructor
  · intro before
    by_contra notLess
    by_cases same : line' = line ∧ units' = units
    · obtain ⟨rfl, rfl⟩ := same
      obtain ⟨front, inner, back, after, here, weighed, rfl⟩ := left
      obtain ⟨front', inner', back', after', there, weighed', rfl⟩ := right
      obtain ⟨rfl, parts, rfl⟩ := line_unique here there
      have equal := front_unique measure positive _ _ _ _ parts (weighed.trans weighed'.symm)
      rw [equal] at before
      omega
    · have reverse := address_less right left (by omega)
      omega
  · exact address_less left right

theorem address_boundary {units offset : Nat} (address : Address cut measure text line units offset) :
    isCharBoundary text offset = true := by
  obtain ⟨before, front, back, after, here, -, rfl⟩ := address
  refine (boundary_iff _ _).mpr ⟨before ++ front, back ++ after, ?_, by rw [size_append]⟩
  rw [line_whole here]
  simp

end Rule

end PerlLsp.TextLines
