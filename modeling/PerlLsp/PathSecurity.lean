import PerlLsp.FileTree
import PerlLsp.Utf8

/-! Path validation against a workspace root (`syntax/path_security.rs`,
`syntax/path_normalize.rs`), on systems without path prefixes. A path that exists
is canonicalized; of one that does not, the deepest existing ancestor is, and the
rest of it is appended by its text alone. -/
namespace PerlLsp.PathSecurity
open FileTree

inductive Part where
  | text (written : String)
  | path (shown : Path)
  | error (error : OsError)
  deriving DecidableEq

/-- A formatted message, `display` of the values left as the values. -/
abbrev Message := List Part

inductive WorkspacePathError where
  | pathTraversalAttempt (message : Message)
  | pathOutsideWorkspace (message : Message)
  | symlinkOutsideWorkspace (message : Message)
  | invalidPathCharacters
  deriving DecidableEq

inductive NormalizePathError where
  | pathTraversalAttempt (message : Message)
  deriving DecidableEq

/-- `char::is_control`. -/
def isControl (c : Char) : Bool :=
  c.toNat < 0x20 || (0x7F ≤ c.toNat && c.toNat ≤ 0x9F)

def invalidCharacters (path : Path) : Bool :=
  match Utf8.decode path.text with
  | some chars => chars.contains '\x00' || chars.any fun c => isControl c && c != '\t'
  | none => false

def symlinkFrom (fs : FileSystem) : Path → List Component → Bool
  | _, [] => false
  | current, component :: rest =>
    let current := current.join component.path
    if fs.isSymlink current then true else symlinkFrom fs current rest

def pathHasSymlinkComponent (fs : FileSystem) (path : Path) : Bool :=
  symlinkFrom fs .empty path.components

/-- The loop of `deepest_existing_ancestor`; `left` are the components of
`ancestor`, last first. -/
def deepestFrom (fs : FileSystem) :
    List Component → Path → List Component → Option (Path × List Component)
  | left, ancestor, trailing =>
    if fs.exists_ ancestor then some (ancestor, trailing)
    else
      match left with
      | [] => none
      | component :: left =>
        match ancestor.pop with
        | none => none
        | some shorter => deepestFrom fs left shorter (component :: trailing)

def deepestExistingAncestor (fs : FileSystem) (path : Path) : Option (Path × List Component) :=
  deepestFrom fs path.components.reverse path []

def normalizeFrom (path : Path) (workspaceDepth : Nat) :
    Location → List Component → Except NormalizePathError Location
  | stack, [] => .ok stack
  | stack, .parentDir :: rest =>
    if stack.length ≤ workspaceDepth then
      .error (.pathTraversalAttempt [.text "Path attempts to escape workspace: ", .path path])
    else normalizeFrom path workspaceDepth stack.dropLast rest
  | stack, .normal name :: rest => normalizeFrom path workspaceDepth (stack ++ [name]) rest
  | stack, .curDir :: rest => normalizeFrom path workspaceDepth stack rest
  | _, .rootDir :: _ =>
    .error (.pathTraversalAttempt [.text "Invalid component in relative path: ", .path path])

def normalizePathWithinWorkspace (path : Path) (workspaceRoot : Location) :
    Except NormalizePathError Location :=
  normalizeFrom path workspaceRoot.length workspaceRoot path.components

def appendRemainder (resolved : Path) : Location → List Component → Except WorkspacePathError Location
  | candidate, [] => .ok candidate
  | candidate, .curDir :: rest => appendRemainder resolved candidate rest
  | candidate, .parentDir :: rest =>
    if candidate = [] then
      .error (.pathTraversalAttempt [.text "Path traversal beyond workspace: ", .path resolved])
    else appendRemainder resolved candidate.dropLast rest
  | candidate, .normal name :: rest => appendRemainder resolved (candidate ++ [name]) rest
  | _, .rootDir :: rest => appendRemainder resolved [] rest

def existingPath (fs : FileSystem) (resolved : Path) (canonical workspace : Location) :
    Except WorkspacePathError Location :=
  if workspace.isPrefixOf canonical then .ok canonical
  else if pathHasSymlinkComponent fs resolved then
    .error (.symlinkOutsideWorkspace [.text "Symlink resolves outside workspace: ",
      .path resolved, .text " -> ", .path canonical.path, .text " (workspace: ",
      .path workspace.path, .text ")"])
  else
    .error (.pathOutsideWorkspace [.text "Path resolves outside workspace: ",
      .path canonical.path, .text " (workspace: ", .path workspace.path, .text ")"])

def anchoredPath (fs : FileSystem) (resolved ancestor : Path) (remainder : List Component)
    (workspace : Location) : Except WorkspacePathError Location :=
  match fs.canonicalize ancestor with
  | .error error =>
    .error (.pathOutsideWorkspace [.text "Existing ancestor not accessible: ",
      .path ancestor, .text " (", .error error, .text ")"])
  | .ok anchor =>
    if workspace.isPrefixOf anchor then appendRemainder resolved anchor remainder
    else if pathHasSymlinkComponent fs ancestor then
      .error (.symlinkOutsideWorkspace [.text "Symlink ancestor resolves outside workspace: ",
        .path ancestor, .text " -> ", .path anchor.path, .text " (workspace: ",
        .path workspace.path, .text ")"])
    else
      .error (.pathOutsideWorkspace [.text "Existing ancestor resolves outside workspace: ",
        .path anchor.path, .text " (workspace: ", .path workspace.path, .text ")"])

def normalizedPath (path : Path) (workspace : Location) : Except WorkspacePathError Location :=
  match normalizePathWithinWorkspace path workspace with
  | .ok normalized => .ok normalized
  | .error (.pathTraversalAttempt message) => .error (.pathTraversalAttempt message)

def resolvedPath (path workspaceRoot : Path) : Path :=
  if path.isAbsolute then path else workspaceRoot.join path

def finalPath (fs : FileSystem) (path resolved : Path) (workspace : Location) :
    Except WorkspacePathError Location :=
  match fs.canonicalize resolved with
  | .ok canonical => existingPath fs resolved canonical workspace
  | .error _ =>
    match deepestExistingAncestor fs resolved with
    | some (ancestor, remainder) => anchoredPath fs resolved ancestor remainder workspace
    | none => normalizedPath path workspace

def validateWorkspacePath (fs : FileSystem) (path workspaceRoot : Path) :
    Except WorkspacePathError Location :=
  if invalidCharacters path then .error .invalidPathCharacters
  else
    match fs.canonicalize workspaceRoot with
    | .error error =>
      .error (.pathOutsideWorkspace [.text "Workspace root not accessible: ",
        .path workspaceRoot, .text " (", .error error, .text ")"])
    | .ok workspace =>
      match finalPath fs path (resolvedPath path workspaceRoot) workspace with
      | .error error => .error error
      | .ok final =>
        if workspace.isPrefixOf final then .ok final
        else
          .error (.pathOutsideWorkspace [.text "Path outside workspace: ",
            .path final.path, .text " (workspace: ", .path workspace.path, .text ")"])

def lexicalStep (place : Location) : Component → Location
  | .rootDir => []
  | .curDir => place
  | .parentDir => place.dropLast
  | .normal name => place ++ [name]

def lexical (place : Location) (components : List Component) : Location :=
  components.foldl lexicalStep place

/-- Where the text of a path that does not exist leads: on from its deepest existing ancestor, or
from the root. -/
def textualPlace (fs : FileSystem) (path workspaceRoot : Path) : Option Location :=
  match deepestExistingAncestor fs (resolvedPath path workspaceRoot) with
  | some (ancestor, remainder) =>
    (fs.canonicalize ancestor).toOption.map fun anchor => lexical anchor remainder
  | none =>
    (fs.canonicalize workspaceRoot).toOption.map fun workspace => lexical workspace path.components

variable (fs : FileSystem) (path workspaceRoot resolved : Path)

theorem append_remainder_lexical (candidate final : Location) (remainder : List Component)
    (appended : appendRemainder resolved candidate remainder = .ok final) :
    final = lexical candidate remainder := by
  induction remainder generalizing candidate with
  | nil => exact (Except.ok.inj appended).symm
  | cons component rest ih =>
    cases component with
    | rootDir => exact ih [] appended
    | curDir => exact ih candidate appended
    | normal name => exact ih (candidate ++ [name]) appended
    | parentDir =>
      rw [appendRemainder] at appended
      split at appended
      · cases appended
      · exact ih candidate.dropLast appended

theorem normalize_from_lexical (depth : Nat) (stack final : Location) (components : List Component)
    (normalized : normalizeFrom path depth stack components = .ok final) :
    final = lexical stack components := by
  induction components generalizing stack with
  | nil => exact (Except.ok.inj normalized).symm
  | cons component rest ih =>
    cases component with
    | rootDir => cases normalized
    | curDir => exact ih stack normalized
    | normal name => exact ih (stack ++ [name]) normalized
    | parentDir =>
      rw [normalizeFrom] at normalized
      split at normalized
      · cases normalized
      · exact ih stack.dropLast normalized

theorem existing_path_ok (canonical workspace final : Location)
    (ok : existingPath fs resolved canonical workspace = .ok final) : final = canonical := by
  unfold existingPath at ok
  split at ok
  · exact (Except.ok.inj ok).symm
  · split at ok <;> cases ok

theorem anchored_path_ok (ancestor : Path) (remainder : List Component) (workspace final : Location)
    (ok : anchoredPath fs resolved ancestor remainder workspace = .ok final) :
    ∃ anchor, fs.canonicalize ancestor = .ok anchor ∧ workspace <+: anchor ∧
      final = lexical anchor remainder := by
  unfold anchoredPath at ok
  split at ok
  · cases ok
  rename_i anchor known
  split at ok
  · next within =>
      exact ⟨anchor, known, List.isPrefixOf_iff_prefix.mp within,
        append_remainder_lexical resolved anchor final remainder ok⟩
  · split at ok <;> cases ok

theorem normalized_path_ok (workspace final : Location)
    (ok : normalizedPath path workspace = .ok final) : final = lexical workspace path.components := by
  unfold normalizedPath at ok
  split at ok
  · next normalized known =>
      cases ok
      exact normalize_from_lexical path _ workspace _ _ known
  · cases ok

theorem final_path_ok (workspace final : Location) (root : fs.canonicalize workspaceRoot = .ok workspace)
    (ok : finalPath fs path (resolvedPath path workspaceRoot) workspace = .ok final) :
    fs.canonicalize (resolvedPath path workspaceRoot) = .ok final ∨
      (fs.canonicalize (resolvedPath path workspaceRoot)).isOk = false ∧
        textualPlace fs path workspaceRoot = some final := by
  unfold finalPath at ok
  cases known : fs.canonicalize (resolvedPath path workspaceRoot) with
  | ok canonical =>
    rw [known] at ok
    exact .inl (congrArg _ (existing_path_ok fs _ canonical workspace final ok).symm)
  | error error =>
    rw [known] at ok
    refine .inr ⟨rfl, ?_⟩
    unfold textualPlace
    cases deepest : deepestExistingAncestor fs (resolvedPath path workspaceRoot) with
    | none =>
      rw [deepest] at ok
      rw [normalized_path_ok path workspace final ok, root]
      rfl
    | some anchored =>
      rw [deepest] at ok
      obtain ⟨anchor, here, -, appended⟩ := anchored_path_ok fs _ _ _ _ _ ok
      simp only [here, appended]
      rfl

/-- An accepted path is below the canonical root and is what the system resolved or what the text
leads to. -/
theorem validated_cases (final : Location)
    (valid : validateWorkspacePath fs path workspaceRoot = .ok final) :
    ∃ workspace, fs.canonicalize workspaceRoot = .ok workspace ∧ workspace <+: final ∧
      (fs.canonicalize (resolvedPath path workspaceRoot) = .ok final ∨
        (fs.canonicalize (resolvedPath path workspaceRoot)).isOk = false ∧
          textualPlace fs path workspaceRoot = some final) := by
  unfold validateWorkspacePath at valid
  split at valid
  · cases valid
  cases root : fs.canonicalize workspaceRoot with
  | error error =>
    rw [root] at valid
    cases valid
  | ok workspace =>
    simp only [root] at valid
    cases came : finalPath fs path (resolvedPath path workspaceRoot) workspace with
    | error error =>
      rw [came] at valid
      cases valid
    | ok last =>
      simp only [came] at valid
      split at valid
      · next within =>
          cases valid
          exact ⟨workspace, rfl, List.isPrefixOf_iff_prefix.mp within,
            final_path_ok fs path workspaceRoot workspace final root came⟩
      · cases valid

def AppendedLinksInside (fs : FileSystem) (path workspaceRoot : Path) : Prop :=
  (fs.canonicalize (resolvedPath path workspaceRoot)).isOk = true ∨
    ∀ workspace place, fs.canonicalize workspaceRoot = .ok workspace →
      textualPlace fs path workspaceRoot = some place → fs.FirstLinkUnder workspace place

theorem confined_iff (fs : FileSystem) (path workspaceRoot : Path) (workspace final : Location)
    (root : fs.canonicalize workspaceRoot = .ok workspace)
    (valid : validateWorkspacePath fs path workspaceRoot = .ok final) :
    fs.StaysUnder workspace final ↔ AppendedLinksInside fs path workspaceRoot := by
  obtain ⟨same, known, below, came⟩ := validated_cases fs path workspaceRoot final valid
  obtain rfl : workspace = same := Except.ok.inj (root.symm.trans known)
  obtain resolved | ⟨missing, textual⟩ := came
  · have stands := fs.canonicalize_stands _ _ resolved
    have exists_ : (fs.canonicalize (resolvedPath path workspaceRoot)).isOk = true := by
      rw [resolved]
      rfl
    exact iff_of_true (fs.stays_under_standing workspace final stands below) (.inl exists_)
  · rw [fs.stays_under_iff workspace final (fs.canonicalize_stands _ _ root) below]
    constructor
    · intro first
      refine .inr fun other place otherRoot led => ?_
      obtain rfl : workspace = other := Except.ok.inj (root.symm.trans otherRoot)
      obtain rfl : final = place := Option.some.inj (textual.symm.trans led)
      exact first
    · rintro (resolved | first)
      · rw [missing] at resolved
        cases resolved
      · exact first workspace final root textual

section Trees

def ws : Name := ⟨[0x77, 0x73], by decide, by decide, by decide⟩
def out : Name := ⟨[0x6F, 0x75, 0x74], by decide, by decide, by decide⟩
def new : Name := ⟨[0x6E, 0x65, 0x77], by decide, by decide, by decide⟩
def link : Name := ⟨[0x6C], by decide, by decide, by decide⟩

-- `/ws/l -> /out/new`, with `/out` there and `/out/new` not.
def dangling : FileSystem where
  entries := [(ws, .directory [(link, .link (Location.path [out, new]) (by decide))]),
    (out, .directory [])]
  cwd := []
  maxLinks := 40
  cwdStands := ⟨_, rfl⟩

def relative (name : Name) : Path := (Component.normal name).path

theorem confined_iff_missing :
    dangling.StaysUnder [ws] [ws, new] ↔
      AppendedLinksInside dangling (relative new) (Location.path [ws]) :=
  confined_iff dangling (relative new) (Location.path [ws]) [ws] [ws, new] (by decide) (by decide)

theorem dangling_link_leaves :
    ¬ ∀ (fs : FileSystem) (path workspaceRoot : Path) (workspace final : Location),
      invalidCharacters path = false →
      fs.canonicalize workspaceRoot = .ok workspace →
      validateWorkspacePath fs path workspaceRoot = .ok final →
      fs.StaysUnder workspace final := by
  intro every
  have stays := every dangling (relative link) (Location.path [ws]) [ws] [ws, link]
    (by decide) (by decide) (by decide)
  have outside := stays.2 [ws, link] stays.1 List.prefix_rfl 1 [out, new] (by decide)
  exact absurd outside (by decide)

end Trees

end PerlLsp.PathSecurity
