import PerlLsp.PathSecurity

/-! What file completion does to the path that is being typed
(`sanitize_completion_path_input` in `syntax/path_security.rs`), on systems whose
only separator is `/`. The components are looked at first; after that every
backslash becomes a separator. Texts are their bytes. -/
namespace PerlLsp.CompletionPath
open FileTree PathSecurity List

def backslash : UInt8 := 0x5C

def parentBytes : List UInt8 := [0x2E, 0x2E]

def slashed (byte : UInt8) : UInt8 := if byte = backslash then separator else byte

def refusesComponent (path : List UInt8) : Component → Bool
  | .parentDir => true
  | .rootDir => path ≠ [separator]
  | _ => false

def sanitizeCompletionPathInput (path : List UInt8) : Option (List UInt8) :=
  if path = [] then some []
  else if path.contains 0 then none
  else if (Path.ofText path).components.any (refusesComponent path) then none
  else if parentBytes ++ [separator] <:+: path ∨ parentBytes ++ [backslash] <:+: path ∨
      ([separator] <+: path ∧ path ≠ [separator]) then none
  else some (path.map slashed)

structure StaysBelow (text : List UInt8) : Prop where
  relative : (Path.ofText text).isAbsolute = true → text = [separator]
  noParent : parentBytes ∉ text.splitOn separator
  below : text = [separator] ∨
    ∀ directory : Location, directory <+: lexical directory (Path.ofText text).components

def Refused (path : List UInt8) : Prop :=
  0 ∈ path ∨ parentBytes ++ [separator] <:+: path ∨ parentBytes ++ [backslash] <:+: path ∨
    parentBytes ∈ path.splitOn separator ∨ [separator] <+: path ∧ path ≠ [separator]

/-- No backslash leads the text, and none stands before a `..` that ends it. -/
def NoHiddenSeparator (path : List UInt8) : Prop :=
  ([backslash] <+: path → path = [backslash]) ∧ ¬ backslash :: parentBytes <:+ path

theorem lexical_below (directory : Location) (components : List Component)
    (noParent : .parentDir ∉ components) (noRoot : .rootDir ∉ components) :
    directory <+: lexical directory components := by
  induction components generalizing directory with
  | nil => exact prefix_rfl
  | cons component rest ih =>
    obtain ⟨notParent, noParent⟩ := not_or.mp (mt mem_cons.mpr noParent)
    obtain ⟨notRoot, noRoot⟩ := not_or.mp (mt mem_cons.mpr noRoot)
    have onward := ih (lexicalStep directory component) noParent noRoot
    refine List.IsPrefix.trans ?_ onward
    cases component with
    | rootDir => exact absurd rfl notRoot
    | curDir => exact prefix_rfl
    | parentDir => exact absurd rfl notParent
    | normal name => exact prefix_append _ _

variable (byte : UInt8) (text : List UInt8)

theorem isAbsolute_ofText : (Path.ofText text).isAbsolute = true ↔ [separator] <+: text := by
  rw [Path.isAbsolute_iff, Path.text_ofText]
  cases text with
  | nil => simp
  | cons first rest => simp [eq_comm]

theorem stays_below_of (relative : [separator] <+: text → text = [separator])
    (noParent : parentBytes ∉ text.splitOn separator) : StaysBelow text where
  relative := fun absolute => relative ((isAbsolute_ofText text).mp absolute)
  noParent := noParent
  below := by
    by_cases root : text = [separator]
    · exact .inl root
    right
    intro directory
    apply lexical_below
    · rwa [Path.parentDir_mem_components, Path.up_mem_ofText]
    · rw [Path.rootDir_mem_components, isAbsolute_ofText]
      exact fun leads => root (relative leads)

variable (path : List UInt8)

theorem refuses_iff : (Path.ofText path).components.any (refusesComponent path) = true ↔
      parentBytes ∈ path.splitOn separator ∨ [separator] <+: path ∧ path ≠ [separator] := by
  rw [← isAbsolute_ofText, ← Path.rootDir_mem_components, parentBytes, ← Path.up_mem_ofText,
    ← Path.parentDir_mem_components, any_eq_true]
  constructor
  · rintro ⟨component, among, refuses⟩
    cases component with
    | rootDir => exact .inr ⟨among, by simpa [refusesComponent] using refuses⟩
    | curDir | normal name => simp [refusesComponent] at refuses
    | parentDir => exact .inl among
  · rintro (among | ⟨among, longer⟩)
    · exact ⟨.parentDir, among, rfl⟩
    · exact ⟨.rootDir, among, by simpa [refusesComponent] using longer⟩

theorem sanitize_refused (refused : Refused path) : sanitizeCompletionPathInput path = none := by
  have filled : path ≠ [] := by
    rintro rfl
    simp [Refused, parentBytes] at refused
  simp only [sanitizeCompletionPathInput, filled, refuses_iff, contains_iff_mem]
  rcases refused with null | slash | backslash | parent | rooted
  · simp [null]
  · simp [slash]
  · simp [backslash]
  · simp [parent]
  · simp [rooted]

theorem sanitize_accepted (accepted : ¬ Refused path) :
    sanitizeCompletionPathInput path = some (path.map slashed) := by
  simp only [Refused, not_or] at accepted
  obtain ⟨null, slash, backslash, parent, rooted⟩ := accepted
  by_cases empty : path = []
  · subst empty
    rfl
  · simp only [sanitizeCompletionPathInput, empty, ↓reduceIte, refuses_iff, contains_iff_mem,
      null, slash, backslash, parent, rooted, or_self]

theorem slashed_eq_separator : slashed byte = separator ↔ byte = separator ∨ byte = backslash := by
  unfold slashed
  split <;> simp_all

theorem slashed_dot : slashed byte = 0x2E ↔ byte = 0x2E := by
  unfold slashed
  split
  · next same => subst same; decide
  · exact Iff.rfl

theorem slashed_parent (bytes : List UInt8) : bytes.map slashed = parentBytes ↔ bytes = parentBytes := by
  constructor
  · intro mapped
    match bytes, mapped with
    | [], mapped | [_], mapped | _ :: _ :: _ :: _, mapped => simp [parentBytes] at mapped
    | [first, second], mapped =>
      simp only [parentBytes, map_cons, cons.injEq, slashed_dot] at mapped
      obtain ⟨rfl, rfl, -⟩ := mapped
      rfl
  · rintro rfl
    decide

/-- The separators of the result are the separators and backslashes of the input. -/
theorem parent_mem_slashed : parentBytes ∈ (path.map slashed).splitOn separator ↔
      Stands (fun byte => byte = separator ∨ byte = backslash) parentBytes path := by
  rw [mem_splitOn_iff]
  constructor
  · rintro ⟨-, before, after, split, opened, closed⟩
    obtain ⟨front, back, rfl, front_eq, rfl⟩ := map_eq_append_iff.mp split
    obtain ⟨start, word, rfl, rfl, word_eq⟩ := map_eq_append_iff.mp front_eq
    obtain rfl := (slashed_parent word).mp word_eq
    refine ⟨start, back, rfl, ?_, ?_⟩
    · intro last ends
      have mapped := Option.mem_map_of_mem slashed ends
      rw [← getLast?_map] at mapped
      exact (slashed_eq_separator last).mp (opened _ mapped)
    · intro first begins
      have mapped := Option.mem_map_of_mem slashed begins
      rw [← head?_map] at mapped
      exact (slashed_eq_separator first).mp (closed _ mapped)
  · rintro ⟨before, after, rfl, opened, closed⟩
    refine ⟨by decide, before.map slashed, after.map slashed, ?_, ?_, ?_⟩
    · simp only [map_append, (slashed_parent parentBytes).mpr rfl]
    · intro last ends
      rw [getLast?_map] at ends
      obtain ⟨byte, held, rfl⟩ := Option.map_eq_some_iff.mp ends
      exact (slashed_eq_separator byte).mpr (opened byte held)
    · intro first begins
      rw [head?_map] at begins
      obtain ⟨byte, held, rfl⟩ := Option.map_eq_some_iff.mp begins
      exact (slashed_eq_separator byte).mpr (closed byte held)

/-- Of a text that is not refused, only its end can still hide a `..`. -/
theorem parent_mem_slashed_iff (accepted : ¬ Refused path) :
    parentBytes ∈ (path.map slashed).splitOn separator ↔ backslash :: parentBytes <:+ path := by
  simp only [Refused, not_or] at accepted
  obtain ⟨-, slash, behind, parent, -⟩ := accepted
  rw [mem_splitOn_iff] at parent
  rw [parent_mem_slashed]
  constructor
  · rintro ⟨before, after, rfl, opened, closed⟩
    cases after with
    | cons first rest =>
      exfalso
      rcases closed first rfl with rfl | rfl
      · exact slash ⟨before, rest, by simp⟩
      · exact behind ⟨before, rest, by simp⟩
    | nil =>
      cases before using reverseRecOn with
      | nil => exact absurd ⟨by decide, [], [], rfl, nofun, nofun⟩ parent
      | append_singleton front last _ =>
        rcases opened last (by simp) with rfl | rfl
        · exact absurd ⟨by decide, front ++ [separator], [], rfl, by simp, nofun⟩ parent
        · exact ⟨front, by simp⟩
  · rintro ⟨front, rfl⟩
    exact ⟨front ++ [backslash], [], by simp, by simp, nofun⟩

theorem separator_leads_slashed :
    [separator] <+: path.map slashed ↔ [separator] <+: path ∨ [backslash] <+: path := by
  cases path with
  | nil => simp
  | cons first rest => simpa [eq_comm] using slashed_eq_separator first

theorem slashed_eq_root : path.map slashed = [separator] ↔ path = [separator] ∨ path = [backslash] := by
  match path with
  | [] => simp
  | [byte] => simpa using slashed_eq_separator byte
  | _ :: _ :: _ => simp

/-- What is returned can be joined to a directory without leaving it exactly when no backslash is a
separator the checks did not see. -/
theorem sanitize_stays_below_iff (path : List UInt8) :
    (∀ sanitized, sanitizeCompletionPathInput path = some sanitized → StaysBelow sanitized) ↔
      Refused path ∨ NoHiddenSeparator path := by
  by_cases refused : Refused path
  · simp [sanitize_refused path refused, refused]
  have rooted : [separator] <+: path → path = [separator] := by
    intro leads
    by_contra longer
    exact refused (.inr (.inr (.inr (.inr ⟨leads, longer⟩))))
  have hidden := parent_mem_slashed_iff path refused
  simp only [sanitize_accepted path refused, Option.some.injEq, forall_eq', refused, false_or]
  constructor
  · intro below
    refine ⟨?_, fun ends => below.noParent (hidden.mpr ends)⟩
    intro leads
    have absolute := (isAbsolute_ofText _).mpr ((separator_leads_slashed path).mpr (.inr leads))
    rcases (slashed_eq_root path).mp (below.relative absolute) with rfl | same
    · simp [separator, backslash] at leads
    · exact same
  · rintro ⟨noLead, noEnd⟩
    refine stays_below_of _ ?_ (fun among => noEnd (hidden.mp among))
    rw [separator_leads_slashed, slashed_eq_root]
    exact Or.imp rooted noLead

/-- `lib\..` -/
def hiddenParent : List UInt8 := [0x6C, 0x69, 0x62, 0x5C, 0x2E, 0x2E]

theorem hidden_parent_leaves :
    ¬ ∀ path sanitized, sanitizeCompletionPathInput path = some sanitized → StaysBelow sanitized := by
  intro every
  have below := every hiddenParent [0x6C, 0x69, 0x62, 0x2F, 0x2E, 0x2E] (by decide)
  exact absurd below.noParent (by decide)

end PerlLsp.CompletionPath
