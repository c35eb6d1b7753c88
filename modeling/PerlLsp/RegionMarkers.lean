import PerlLsp.PositionConvert
import PerlLsp.Text

/-! Folding by region markers (`FoldingRangeExtractor::extract_region_markers` of
providers/folding/mod.rs). What counts as alphanumeric is a parameter. -/
namespace PerlLsp.RegionMarkers
open Utf8 PositionConvert Text List

inductive FoldingRangeKind where
  | comment
  | imports
  | region

structure FoldingRange where
  startOffset : Nat
  endOffset : Nat
  kind : Option FoldingRangeKind
  endOffsetOnContentLine : Bool

def regionRange (startOffset endOffset : Nat) : FoldingRange :=
  ⟨startOffset, endOffset, some .region, true⟩

def region : List Char := ['r', 'e', 'g', 'i', 'o', 'n']

def endregion : List Char := ['e', 'n', 'd'] ++ region

/-- What follows a marker word on its line. -/
def afterMarker (word line : List Char) : Option (List Char) :=
  let trimmed := trimStart line
  if trimmed.head? = some '#' then
    let afterHash := trimStart trimmed.tail
    if word.isPrefixOf afterHash then some (afterHash.drop word.length) else none
  else none

def lineContent (chunk : List Char) : List Char :=
  let line := (stripSuffix '\n' chunk).getD chunk
  (stripSuffix '\r' line).getD line

section Scan
variable (alphanumeric : Char → Bool)

def isMarker (word line : List Char) : Bool :=
  (afterMarker word line).any fun after => !after.head?.any alphanumeric

def scan (stack : List (Nat × Nat)) (depth currentOffset : Nat) : List (List Char) → List FoldingRange
  | [] => []
  | chunk :: chunks =>
    let line := lineContent chunk
    let next := currentOffset + size chunk
    let (stack, depth) := if isMarker alphanumeric region line
      then ((currentOffset, depth) :: stack, depth + 1) else (stack, depth)
    if isMarker alphanumeric endregion line ∧ 0 < depth then
      match stack with
      | [] => scan [] (depth - 1) next chunks
      | (startOffset, _) :: stack =>
        regionRange startOffset (currentOffset + size line) :: scan stack (depth - 1) next chunks
    else scan stack depth next chunks

def extractRegionMarkers (text : List Char) : List FoldingRange :=
  scan alphanumeric [] 0 0 (splitInclusive text)

structure Row where
  start : Nat
  line : List Char

def Row.stop (row : Row) : Nat := row.start + size row.line

def rowsFrom (start : Nat) : List (List Char) → List Row
  | [] => []
  | chunk :: chunks => ⟨start, lineContent chunk⟩ :: rowsFrom (start + size chunk) chunks

/-- `^\s*#\s*word\b` -/
def Documented (word line : List Char) : Prop :=
  ∃ lead gap after, line = lead ++ '#' :: (gap ++ (word ++ after)) ∧ lead.all isWhitespace ∧
    gap.all isWhitespace ∧ ∀ scalar, after.head? = some scalar →
      alphanumeric scalar = false ∧ scalar ≠ '_'

open Classical in
/-- Each closing row with the nearest opening row before it that has no partner yet. -/
noncomputable def matched (opens closes : Row → Prop) : List Row → List Row → List (Row × Row)
  | _, [] => []
  | waiting, row :: rows =>
    if opens row then matched opens closes (row :: waiting) rows
    else if closes row then
      match waiting with
      | [] => matched opens closes [] rows
      | start :: waiting => (start, row) :: matched opens closes waiting rows
    else matched opens closes waiting rows

def toRange (pair : Row × Row) : FoldingRange := regionRange pair.1.start pair.2.stop

/-- An underscore follows the marker word, which the marker test does not see. -/
def underscored (word line : List Char) : Bool :=
  (afterMarker word line).any fun after => after.head? = some '_'

def opensRegion (row : Row) : Bool := isMarker alphanumeric region row.line

def closesRegion (row : Row) : Bool := isMarker alphanumeric endregion row.line

/-- The row that closes the region at a depth. -/
def closedBy : Nat → List Row → Option Row
  | _, [] => none
  | depth, row :: rows =>
    if opensRegion alphanumeric row then closedBy (depth + 1) rows
    else if closesRegion alphanumeric row then
      match depth with
      | 0 => some row
      | depth + 1 => closedBy depth rows
    else closedBy depth rows

/-- The folds are those of the documented markers, each on scalar boundaries, any two nested
or disjoint. -/
structure AsDocumented (text : List Char) : Prop where
  exact : extractRegionMarkers alphanumeric text =
    (matched (fun row => Documented alphanumeric region row.line)
      (fun row => Documented alphanumeric endregion row.line) []
      (rowsFrom 0 (splitInclusive text))).map toRange
  boundaries : ∀ range ∈ extractRegionMarkers alphanumeric text,
    isCharBoundary text range.startOffset ∧ isCharBoundary text range.endOffset
  nested : (extractRegionMarkers alphanumeric text).Pairwise fun first second =>
    first.endOffset ≤ second.startOffset ∨
      second.startOffset ≤ first.startOffset ∧ first.endOffset ≤ second.endOffset

theorem drop_while_iff {keep : Char → Bool} {text rest : List Char} {scalar : Char}
    (stops : keep scalar = false) : text.dropWhile keep = scalar :: rest ↔
      ∃ lead, text = lead ++ scalar :: rest ∧ lead.all keep := by
  constructor
  · intro same
    exact ⟨text.takeWhile keep, by rw [← same, takeWhile_append_dropWhile], all_takeWhile⟩
  · rintro ⟨lead, rfl, all⟩
    rw [dropWhile_append_of_pos (all_eq_true.mp all), dropWhile_cons_of_neg (by simp [stops])]

theorem after_marker_iff {first : Char} {word line after : List Char}
    (solid : isWhitespace first = false) : afterMarker (first :: word) line = some after ↔
      ∃ lead gap, line = lead ++ '#' :: (gap ++ (first :: word ++ after)) ∧
        lead.all isWhitespace ∧ gap.all isWhitespace := by
  have hash : isWhitespace '#' = false := by decide
  unfold afterMarker
  dsimp only
  constructor
  · intro found
    split at found
    next starts =>
      obtain ⟨text, same⟩ := head?_eq_some_iff.mp starts
      rw [same, tail_cons] at found
      split at found
      next whole =>
        obtain ⟨rest, gone⟩ := isPrefixOf_iff_prefix.mp whole
        rw [← gone, drop_left, Option.some.injEq] at found
        obtain ⟨gap, rfl, gapBlank⟩ := (drop_while_iff solid).mp gone.symm
        obtain ⟨lead, rfl, leadBlank⟩ := (drop_while_iff hash).mp same
        exact ⟨lead, gap, found ▸ rfl, leadBlank, gapBlank⟩
      next => cases found
    next => cases found
  · rintro ⟨lead, gap, rfl, leadBlank, gapBlank⟩
    have front : trimStart (lead ++ '#' :: (gap ++ (first :: word ++ after))) =
      '#' :: (gap ++ (first :: word ++ after)) := (drop_while_iff hash).mpr ⟨lead, rfl, leadBlank⟩
    have behind : trimStart (gap ++ (first :: word ++ after)) = first :: word ++ after :=
      (drop_while_iff solid).mpr ⟨gap, rfl, gapBlank⟩
    rw [front, tail_cons, behind, drop_left, head?_cons, if_pos rfl, if_pos]
    exact isPrefixOf_iff_prefix.mpr (prefix_append _ _)

theorem documented_iff {first : Char} {word line : List Char} (solid : isWhitespace first = false) :
    Documented alphanumeric (first :: word) line ↔ ∃ after,
      afterMarker (first :: word) line = some after ∧ ∀ scalar, after.head? = some scalar →
        alphanumeric scalar = false ∧ scalar ≠ '_' := by
  simp only [after_marker_iff solid]
  constructor
  · rintro ⟨lead, gap, after, same, leadBlank, gapBlank, ends⟩
    exact ⟨after, ⟨lead, gap, same, leadBlank, gapBlank⟩, ends⟩
  · rintro ⟨after, ⟨lead, gap, same, leadBlank, gapBlank⟩, ends⟩
    exact ⟨lead, gap, after, same, leadBlank, gapBlank, ends⟩

theorem documented_marker_iff {first : Char} {word line : List Char}
    (solid : isWhitespace first = false) : Documented alphanumeric (first :: word) line ↔
      isMarker alphanumeric (first :: word) line ∧ underscored (first :: word) line = false := by
  rw [documented_iff alphanumeric solid, isMarker, underscored]
  cases afterMarker (first :: word) line with
  | none => simp
  | some after => cases next : after.head? <;> simp [next]

/-- A line does not hold both markers. -/
theorem region_alone {line : List Char} (marked : isMarker alphanumeric region line) :
    isMarker alphanumeric endregion line = false := by
  have apart (text : List Char) (whole : region.isPrefixOf text) :
      endregion.isPrefixOf text = false := by
    cases text with
    | nil => rfl
    | cons scalar text =>
      obtain ⟨rfl, _⟩ : 'r' = scalar ∧ _ := by simpa [region] using whole
      rfl
  unfold isMarker afterMarker at *
  grind

theorem content_prefix (chunk : List Char) : lineContent chunk <+: chunk := by
  have strip (scalar : Char) (line : List Char) :
      (stripSuffix scalar line).getD line <+: line := by
    unfold stripSuffix
    split
    · exact dropLast_prefix line
    · exact prefix_rfl
  exact (strip '\r' _).trans (strip '\n' chunk)

theorem rows_place (front : List Char) (chunks : List (List Char)) {row : Row}
    (member : row ∈ rowsFrom (size front) chunks) : ∃ before after,
      front ++ chunks.flatten = before ++ (row.line ++ after) ∧ size before = row.start := by
  induction chunks generalizing front with
  | nil => cases member
  | cons chunk chunks ih =>
    rcases mem_cons.mp member with rfl | later
    · obtain ⟨ending, whole⟩ := content_prefix chunk
      refine ⟨front, ending ++ chunks.flatten, ?_, rfl⟩
      rw [flatten_cons, ← append_assoc (lineContent chunk), whole]
    · rw [← size_append] at later
      obtain ⟨before, after, same, place⟩ := ih (front ++ chunk) later
      exact ⟨before, after, by simpa using same, place⟩

theorem rows_ordered (start : Nat) (chunks : List (List Char)) :
    (∀ row ∈ rowsFrom start chunks, start ≤ row.start) ∧
      (rowsFrom start chunks).Pairwise fun row later => row.stop ≤ later.start := by
  induction chunks generalizing start with
  | nil => simp [rowsFrom]
  | cons chunk chunks ih =>
    obtain ⟨behind, ordered⟩ := ih (start + size chunk)
    obtain ⟨ending, whole⟩ := content_prefix chunk
    have width : size (lineContent chunk) ≤ size chunk := by
      rw [← whole, size_append, whole]
      exact Nat.le_add_right _ _
    refine ⟨fun row member => ?_, pairwise_cons.mpr ⟨fun later member => ?_, ordered⟩⟩
    · rcases mem_cons.mp member with rfl | later
      · exact Nat.le_refl _
      · exact Nat.le_of_add_right_le (behind row later)
    · exact (Nat.add_le_add_left width start).trans (behind later member)

section Matched
variable (opens closes : Row → Prop)

theorem matched_mem (waiting rows : List Row) {pair : Row × Row}
    (member : pair ∈ matched opens closes waiting rows) :
    (pair.1 ∈ waiting ∨ pair.1 ∈ rows ∧ opens pair.1) ∧ pair.2 ∈ rows ∧ closes pair.2 := by
  induction rows generalizing waiting with
  | nil => cases member
  | cons row rows ih =>
    unfold matched at member
    grind

theorem matched_nested (waiting rows : List Row)
    (ordered : (waiting.reverse ++ rows).Pairwise fun row later => row.stop ≤ later.start) :
    (matched opens closes waiting rows).Pairwise fun first second =>
      first.2.stop ≤ second.1.start ∨ second.1.start ≤ first.1.start ∧ first.2.stop ≤ second.2.stop := by
  induction rows generalizing waiting with
  | nil => exact .nil
  | cons row rows ih =>
    have later := (sublist_cons_self row rows).append_left waiting.reverse
    have moved : waiting.reverse ++ row :: rows = (row :: waiting).reverse ++ rows := by simp
    unfold matched
    split
    · exact ih _ (moved ▸ ordered)
    split
    · cases waiting with
      | nil => exact ih [] (ordered.sublist later)
      | cons start waiting =>
        rw [reverse_cons, append_assoc] at ordered
        have rest : (waiting.reverse ++ rows).Sublist (waiting.reverse ++ ([start] ++ row :: rows)) :=
          ((sublist_cons_self row rows).trans (sublist_append_right _ _)).append_left _
        refine pairwise_cons.mpr ⟨fun pair member => ?_, ih waiting (ordered.sublist rest)⟩
        obtain ⟨opened, closed, _⟩ := matched_mem opens closes waiting rows member
        obtain ⟨_, tail, before⟩ := pairwise_append.mp ordered
        have behind := (pairwise_cons.mp (pairwise_cons.mp tail).2).1
        rcases opened with opened | ⟨opened, _⟩
        · have first := before pair.1 (mem_reverse.mpr opened) start mem_cons_self
          have last := behind pair.2 closed
          exact .inr ⟨Nat.le_of_add_right_le first, Nat.le_add_right_of_le last⟩
        · exact .inl (behind pair.1 opened)
    · exact ih waiting (ordered.sublist later)

open Classical in
/-- Markers that no pair needs may as well not be seen. -/
theorem matched_filter {others ends : Row → Prop} (waiting rows : List Row)
    (fewer : ∀ row, (others row → opens row) ∧ (ends row → closes row))
    (alone : ∀ row, opens row → ¬ closes row)
    (kept : ∀ pair ∈ matched opens closes waiting rows, others pair.1 ∧ ends pair.2) :
    matched opens closes waiting rows = matched others ends (waiting.filter others) rows := by
  induction rows generalizing waiting with
  | nil => rfl
  | cons row rows ih =>
    have opened := mt (fewer row).1
    have closed := mt (fewer row).2
    unfold matched at kept ⊢
    by_cases opening : opens row
    · have plain := closed (alone row opening)
      rw [if_pos opening] at kept ⊢
      rw [ih _ kept, if_neg plain]
      split <;> simp_all
    rw [if_neg opening] at kept ⊢
    rw [if_neg (opened opening)]
    by_cases closing : closes row
    · rw [if_pos closing] at kept ⊢
      cases waiting with
      | nil => simpa using ih [] kept
      | cons start waiting =>
        obtain ⟨⟨first, last⟩, later⟩ := forall_mem_cons.mp kept
        simp [first, last, ih waiting later]
    · rw [if_neg closing] at kept ⊢
      rw [if_neg (closed closing), ih waiting kept]

theorem exists_suffix_cons {row first : Row} {rows : List Row} {holds : List Row → Prop} :
    (∃ later, first :: later <:+ row :: rows ∧ holds later) ↔
      (first = row ∧ holds rows) ∨ ∃ later, first :: later <:+ rows ∧ holds later := by
  simp [suffix_cons_iff, or_and_right, exists_or, and_assoc]

/-- What is paired: a waiting row with what closes its depth, or a later one with what closes it. -/
theorem mem_matched_iff (waiting rows : List Row) {pair : Row × Row} :
    pair ∈ matched (opensRegion alphanumeric ·) (closesRegion alphanumeric ·) waiting rows ↔
      (∃ depth, waiting[depth]? = some pair.1 ∧ closedBy alphanumeric depth rows = some pair.2) ∨
        ∃ later, pair.1 :: later <:+ rows ∧ opensRegion alphanumeric pair.1 ∧
          closedBy alphanumeric 0 later = some pair.2 := by
  induction rows generalizing waiting with
  | nil => simp [matched, closedBy]
  | cons row rows ih =>
    unfold matched
    rw [exists_suffix_cons]
    simp only [closedBy]
    cases opened : opensRegion alphanumeric row with
    | true =>
      have rest := ih (row :: waiting)
      rw [← Nat.or_exists_add_one] at rest
      simp_all
      grind
    | false =>
      cases closed : closesRegion alphanumeric row with
      | true =>
        cases waiting with
        | nil =>
          have rest := ih []
          simp_all
        | cons start waiting =>
          have rest := ih waiting
          rw [← Nat.or_exists_add_one]
          simp_all
          grind
      | false =>
        have rest := ih waiting
        simp_all
        grind

end Matched

/-- The scan with its depth matches the markers it sees. -/
theorem scan_eq (stack : List (Nat × Nat)) (waiting : List Row) (start : Nat)
    (chunks : List (List Char)) (same : stack.map Prod.fst = waiting.map Row.start) :
    scan alphanumeric stack stack.length start chunks =
      (matched (opensRegion alphanumeric ·) (closesRegion alphanumeric ·) waiting
        (rowsFrom start chunks)).map toRange := by
  unfold opensRegion closesRegion
  induction chunks generalizing stack waiting start with
  | nil => rfl
  | cons chunk chunks ih =>
    unfold scan rowsFrom matched
    by_cases opens : isMarker alphanumeric region (lineContent chunk)
    · have closes := region_alone alphanumeric opens
      have pushed := ih ((start, stack.length) :: stack) (⟨start, lineContent chunk⟩ :: waiting)
        (start + size chunk) (by simp [same])
      simp_all
    by_cases closes : isMarker alphanumeric endregion (lineContent chunk)
    · cases waiting with
      | nil =>
        have none : stack = [] := by simpa using same
        have rest := ih [] [] (start + size chunk) rfl
        simp_all
      | cons row waiting =>
        cases stack with
        | nil => cases same
        | cons first stack =>
          obtain ⟨here, later⟩ := cons.inj same
          have rest := ih stack waiting (start + size chunk) later
          simp_all [toRange, Row.stop]
    · have rest := ih stack waiting (start + size chunk) same
      simp_all

theorem extract_eq (text : List Char) : extractRegionMarkers alphanumeric text =
    (matched (opensRegion alphanumeric ·) (closesRegion alphanumeric ·) []
      (rowsFrom 0 (splitInclusive text))).map toRange :=
  scan_eq alphanumeric [] [] 0 (splitInclusive text) rfl

theorem split_flatten (current text : List Char) :
    (splitInclusiveFrom current text).flatten = current ++ text := by
  induction text generalizing current with
  | nil => cases current <;> simp [splitInclusiveFrom]
  | cons scalar text ih =>
    unfold splitInclusiveFrom
    split <;> simp_all

theorem row_boundaries (text : List Char) {row : Row} (member : row ∈ rowsFrom 0 (splitInclusive text)) :
    isCharBoundary text row.start ∧ isCharBoundary text row.stop := by
  obtain ⟨before, after, whole, place⟩ := rows_place [] (splitInclusive text) member
  rw [splitInclusive, split_flatten, nil_append, nil_append] at whole
  refine ⟨(boundary_iff _ _).mpr ⟨before, _, whole, place⟩, (boundary_iff _ _).mpr ?_⟩
  refine ⟨before ++ row.line, after, by rw [whole, append_assoc], ?_⟩
  rw [size_append, place, Row.stop]

theorem marked_solid {word : List Char} {row : Row}
    (marked : isMarker alphanumeric word row.line) : row.start < row.stop := by
  unfold Row.stop
  by_contra flat
  rw [size_zero row.line (by omega)] at marked
  cases marked

/-- Two rows that are not empty do not start or stop together. -/
theorem row_unique {rows : List Row}
    (ordered : rows.Pairwise fun row later => row.stop ≤ later.start) {first second : Row} (firstIn : first ∈ rows) (secondIn : second ∈ rows)
    (solid : first.start < first.stop ∧ second.start < second.stop)
    (meets : first.start = second.start ∨ first.stop = second.stop) : first = second := by
  refine Pairwise.forall_of_forall_of_flip (R := fun row other : Row =>
    row.start < row.stop ∧ other.start < other.stop →
      row.start = other.start ∨ row.stop = other.stop → row = other) (fun _ _ _ _ => rfl)
    (ordered.imp ?_) (ordered.imp ?_) firstIn secondIn solid meets
  · intro row later before solid meets
    omega
  · intro row later before solid meets
    omega

theorem documented_row_iff (row : Row) : (Documented alphanumeric region row.line ↔
        opensRegion alphanumeric row ∧ underscored region row.line = false) ∧
      (Documented alphanumeric endregion row.line ↔
        closesRegion alphanumeric row ∧ underscored endregion row.line = false) :=
  ⟨documented_marker_iff alphanumeric (by decide), documented_marker_iff alphanumeric (by decide)⟩

/-- The folds are the documented ones exactly when no region line and the line that closes it,
as the marker test sees them, have an underscore behind their marker words. -/
theorem as_documented_iff (text : List Char) : AsDocumented alphanumeric text ↔
    ∀ first later last, first :: later <:+ rowsFrom 0 (splitInclusive text) →
      opensRegion alphanumeric first → closedBy alphanumeric 0 later = some last →
        underscored region first.line = false ∧ underscored endregion last.line = false := by
  have pairs (pair : Row × Row) :=
    @mem_matched_iff alphanumeric [] (rowsFrom 0 (splitInclusive text)) pair
  have seen := documented_row_iff alphanumeric
  have ordered := (rows_ordered 0 (splitInclusive text)).2
  have whole := extract_eq alphanumeric text
  constructor
  · intro documented first later last behind opens closed
    have member := (pairs (first, last)).mpr (.inr ⟨later, behind, opens, closed⟩)
    have fold := mem_map_of_mem (f := toRange) member
    rw [← whole, documented.exact] at fold
    -- A documented fold with these ends is the fold of these two rows.
    obtain ⟨pair, inside, same⟩ := mem_map.mp fold
    obtain ⟨start, stop, -⟩ := FoldingRange.mk.inj same
    obtain ⟨firstIn, lastIn, closes⟩ := matched_mem _ _ _ _ member
    obtain ⟨opened, closed, ends⟩ := matched_mem _ _ _ _ inside
    obtain ⟨opened, starts⟩ := opened.resolve_left not_mem_nil
    obtain ⟨starts, firstPlain⟩ := (seen pair.1).1.mp starts
    obtain ⟨ends, lastPlain⟩ := (seen pair.2).2.mp ends
    have solid {word : List Char} {row : Row} := @marked_solid alphanumeric word row
    obtain rfl := row_unique ordered opened (firstIn.resolve_left not_mem_nil).1
      ⟨solid starts, solid opens⟩ (.inl start)
    obtain rfl := row_unique ordered closed lastIn ⟨solid ends, solid closes⟩ (.inr stop)
    exact ⟨firstPlain, lastPlain⟩
  intro plain
  constructor
  · rw [whole]
    refine congrArg _ (Eq.trans (matched_filter _ _ [] _ ?_ ?_ ?_) rfl)
    · exact fun row => ⟨fun documented => ((seen row).1.mp documented).1,
        fun documented => ((seen row).2.mp documented).1⟩
    · intro row opens closes
      rw [closesRegion, region_alone alphanumeric opens] at closes
      cases closes
    · intro pair member
      have closes := (matched_mem _ _ _ _ member).2.2
      obtain ⟨_, none, _⟩ | ⟨later, behind, opens, closed⟩ := (pairs pair).mp member
      · cases none
      obtain ⟨first, last⟩ := plain pair.1 later pair.2 behind opens closed
      exact ⟨(seen _).1.mpr ⟨opens, first⟩, (seen _).2.mpr ⟨closes, last⟩⟩
  · intro range member
    rw [whole] at member
    obtain ⟨pair, inside, rfl⟩ := mem_map.mp member
    obtain ⟨opened, closed, _⟩ := matched_mem _ _ _ _ inside
    have opened := (opened.resolve_left not_mem_nil).1
    exact ⟨(row_boundaries text opened).1, (row_boundaries text closed).2⟩
  · rw [whole]
    exact pairwise_map.mpr (matched_nested _ _ [] _ ordered)

end Scan

theorem underscore_folds : ¬ ∀ text, AsDocumented Char.isAlphanum text := by
  intro every
  have exact := (every (['#'] ++ region ++ ['_', '\n', '#'] ++ endregion)).exact
  have seen : afterMarker region (['#'] ++ region ++ ['_']) = some ['_'] := by decide
  have apart : ¬ Documented Char.isAlphanum region (['#'] ++ region ++ ['_']) := by
    intro documented
    obtain ⟨after, found, ends⟩ := (documented_iff _ (by decide)).mp documented
    cases seen.symm.trans found
    exact (ends '_' rfl).2 rfl
  have rows : rowsFrom 0 (splitInclusive (['#'] ++ region ++ ['_', '\n', '#'] ++ endregion)) =
    [⟨0, ['#'] ++ region ++ ['_']⟩, ⟨9, ['#'] ++ endregion⟩] := by rfl
  rw [rows] at exact
  simp only [matched, if_neg apart, ite_self, map_nil] at exact
  cases exact

end PerlLsp.RegionMarkers
