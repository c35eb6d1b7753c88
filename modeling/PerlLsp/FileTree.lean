import Mathlib.Data.List.DropRight
import Mathlib.Data.List.Infix

/-! Paths and finite trees of directories, files and symbolic links. `resolve` is the system's own
way through a tree: every component has to exist, a link stands for its target, and a bounded number
of links is followed. `settle` also goes on past components that do not exist, taking each as a
plain name. Permissions and limits on lengths are not part of it. -/
namespace PerlLsp.FileTree
open List

def separator : UInt8 := 0x2F

structure Name where
  bytes : List UInt8
  nonempty : bytes ≠ []
  undivided : separator ∉ bytes
  ordinary : bytes ≠ [0x2E] ∧ bytes ≠ [0x2E, 0x2E]
  deriving DecidableEq

/-- What can stand between two separators of a path. -/
inductive Piece where
  | empty
  | here
  | up
  | name (name : Name)
  deriving DecidableEq

def Piece.bytes : Piece → List UInt8
  | .empty => []
  | .here => [0x2E]
  | .up => [0x2E, 0x2E]
  | .name word => word.bytes

def Piece.ofBytes (bytes : List UInt8) (undivided : separator ∉ bytes) : Piece :=
  if empty : bytes = [] then .empty
  else if here : bytes = [0x2E] then .here
  else if up : bytes = [0x2E, 0x2E] then .up
  else .name ⟨bytes, empty, undivided, here, up⟩

theorem Piece.bytes_ofBytes (bytes : List UInt8) (undivided : separator ∉ bytes) :
    (ofBytes bytes undivided).bytes = bytes := by
  unfold ofBytes
  split
  · next empty => rw [empty]; rfl
  split
  · next here => rw [here]; rfl
  · split
    · next up => rw [up]; rfl
    · rfl

/-- How the text of a path begins: with a separator, with a leading `.`, or with
its first piece. -/
inductive Start where
  | root
  | here
  | bare
  deriving DecidableEq

structure Path where
  start : Start
  pieces : List Piece
  leads : start = .bare → pieces.head? ≠ some .empty ∧ pieces.head? ≠ some .here
  deriving DecidableEq

inductive Component where
  | rootDir
  | curDir
  | parentDir
  | normal (name : Name)
  deriving DecidableEq

def Piece.component? : Piece → Option Component
  | .empty => none
  | .here => none
  | .up => some .parentDir
  | .name word => some (.normal word)

namespace Path

def text (path : Path) : List UInt8 :=
  match path.start with
  | .root => separator :: List.intercalate [separator] (path.pieces.map Piece.bytes)
  | .here => 0x2E :: path.pieces.flatMap fun piece => separator :: piece.bytes
  | .bare => List.intercalate [separator] (path.pieces.map Piece.bytes)

def empty : Path := ⟨.bare, [], by simp⟩

def root : Path := ⟨.root, [], nofun⟩

variable (path : Path)

def isEmpty : Bool := path.start = .bare ∧ path.pieces = []

def isAbsolute : Bool := path.start = .root

def components : List Component :=
  let named := path.pieces.filterMap Piece.component?
  match path.start with
  | .root => .rootDir :: named
  | .here => .curDir :: named
  | .bare => named

def added : List Piece :=
  match path.start with
  | .here => .here :: path.pieces
  | _ => if path.pieces = [] then [.empty] else path.pieces

-- A text that ends in a separator takes no further one before what is pushed.
def closeEnd : List Piece → List Piece
  | [] => []
  | [.empty] => []
  | piece :: rest => piece :: closeEnd rest

theorem head_close_end (piece : Piece) (rest : List Piece) (filled : piece ≠ .empty) :
    (closeEnd (piece :: rest)).head? = some piece := by
  cases piece with
  | empty => exact absurd rfl filled
  | here => rfl
  | up => rfl
  | name word => rfl

theorem joined_leads (base path : Path) (kept : base.isEmpty = false) (bare : base.start = .bare) :
    (closeEnd base.pieces ++ path.added).head? ≠ some .empty ∧
      (closeEnd base.pieces ++ path.added).head? ≠ some .here := by
  obtain ⟨noEmpty, noHere⟩ := base.leads bare
  cases pieces : base.pieces with
  | nil => simp [isEmpty, bare, pieces] at kept
  | cons piece rest =>
    rw [pieces] at noEmpty noHere
    have filled : piece ≠ .empty := fun same => noEmpty (by simp [same])
    have head := head_close_end piece rest filled
    rw [head?_append, head]
    exact ⟨noEmpty, noHere⟩

/-- `join` and `push`: an absolute path replaces what it is joined to. -/
def join (base path : Path) : Path :=
  if path.isAbsolute then path
  else if kept : base.isEmpty then path
  else ⟨base.start, closeEnd base.pieces ++ path.added, joined_leads base path (by simpa using kept)⟩

def insignificant (piece : Piece) : Bool := piece.component?.isNone

def trimmed (pieces : List Piece) : List Piece := pieces.rdropWhile insignificant

theorem cut_leads (path : Path) (kept : List Piece) (front : kept <+: path.pieces)
    (bare : path.start = .bare) : kept.head? ≠ some .empty ∧ kept.head? ≠ some .here := by
  obtain ⟨dropped, split⟩ := front
  have leads := path.leads bare
  cases kept with
  | nil => simp
  | cons piece rest => simpa [← split] using leads

theorem trimmed_front (pieces : List Piece) : trimmed pieces <+: pieces :=
  rdropWhile_prefix _ _

theorem parent_front (pieces : List Piece) : trimmed (trimmed pieces).dropLast <+: pieces :=
  ((trimmed_front _).trans (List.dropLast_prefix _)).trans (trimmed_front pieces)

/-- Takes the last component away, `none` where there is none or only the root. -/
def pop (path : Path) : Option Path :=
  if trimmed path.pieces = [] then
    if path.start = .here then some empty else none
  else
    some ⟨path.start, trimmed (trimmed path.pieces).dropLast,
      cut_leads path _ (parent_front path.pieces)⟩

end Path

section Split
variable {Scalar : Type*} [DecidableEq Scalar]

def Stands (divides : Scalar → Prop) (word text : List Scalar) : Prop :=
  ∃ before after, text = before ++ word ++ after ∧
    (∀ last ∈ before.getLast?, divides last) ∧ ∀ first ∈ after.head?, divides first

theorem mem_splitOn_iff (divider : Scalar) (word text : List Scalar) :
    word ∈ text.splitOn divider ↔ divider ∉ word ∧ Stands (· = divider) word text := by
  constructor
  · intro among
    induction size : text.length using Nat.strong_induction_on generalizing text with
    | h size ih =>
      by_cases divided : divider ∈ text
      · obtain ⟨first, rest, rfl, whole⟩ := eq_append_cons_of_mem divided
        rw [splitOn_append_cons_self_of_not_mem whole] at among
        rcases mem_cons.mp among with rfl | later
        · exact ⟨whole, [], divider :: rest, rfl, nofun, by simp⟩
        obtain ⟨undivided, before, after, rfl, opened, closed⟩ :=
          ih rest.length (by rw [← size]; simp; omega) rest later rfl
        refine ⟨undivided, first ++ divider :: before, after, by simp, ?_, closed⟩
        intro last ends
        cases before with
        | nil => simpa [eq_comm] using ends
        | cons head tail =>
          refine opened last ?_
          simpa using ends
      · rw [splitOn_eq_singleton divided, mem_singleton] at among
        subst among
        exact ⟨divided, [], [], by simp, nofun, nofun⟩
  · rintro ⟨undivided, before, after, rfl, opened, closed⟩
    have behind : word ∈ (word ++ after).splitOn divider := by
      cases after with
      | nil => rw [append_nil, splitOn_eq_singleton undivided]; simp
      | cons first rest =>
        obtain rfl := closed first rfl
        rw [splitOn_append_cons_self_of_not_mem undivided]
        exact mem_cons_self
    cases before using List.reverseRecOn with
    | nil => exact behind
    | append_singleton front last _ =>
      obtain rfl := opened last (by simp)
      rw [append_assoc, append_assoc, singleton_append,
        splitOn_append_cons_self]
      exact mem_append_right _ behind

end Split

variable (text : List UInt8)

def textPieces : List Piece :=
  (text.splitOn separator).attach.map fun piece =>
    Piece.ofBytes piece.1 ((mem_splitOn_iff separator piece.1 text).mp piece.2).1

theorem text_pieces_bytes : (textPieces text).map Piece.bytes = text.splitOn separator := by
  simp [textPieces, Piece.bytes_ofBytes]

def Path.ofText : Path :=
  match textPieces text with
  | [] => .empty
  | first :: rest =>
    if empty : first = .empty then if rest = [] then .empty else ⟨.root, rest, nofun⟩
    else if here : first = .here then ⟨.here, rest, nofun⟩
    else ⟨.bare, first :: rest, by simp [empty, here]⟩

theorem intercalate_pieces (first : Piece) (rest : List Piece) :
    List.intercalate [separator] ((first :: rest).map Piece.bytes) =
      first.bytes ++ rest.flatMap fun piece => separator :: piece.bytes := by
  induction rest generalizing first with
  | nil => simp [List.intercalate]
  | cons next rest ih =>
    have onward := ih next
    simp only [map_cons, List.intercalate, intersperse_cons_cons, flatten_cons,
      flatMap_cons, singleton_append] at onward ⊢
    rw [onward]
    simp

theorem Path.text_ofText (text : List UInt8) : (Path.ofText text).text = text := by
  have whole : List.intercalate [separator] ((textPieces text).map Piece.bytes) = text := by
    rw [text_pieces_bytes, intercalate_splitOn]
  unfold Path.ofText
  cases pieces : textPieces text with
  | nil =>
    rw [pieces] at whole
    exact whole
  | cons first rest =>
    rw [pieces] at whole
    by_cases empty : first = .empty
    · subst empty
      rw [intercalate_pieces] at whole
      cases rest with
      | nil => exact whole
      | cons next rest =>
        simp only [↓reduceDIte, reduceCtorEq, ↓reduceIte, Path.text]
        rw [intercalate_pieces, ← whole]
        simp [Piece.bytes]
    · by_cases here : first = .here
      · subst here
        rw [intercalate_pieces] at whole
        exact whole
      · simp only [empty, here]
        exact whole

theorem Piece.undivided (piece : Piece) : separator ∉ piece.bytes := by
  cases piece with
  | empty => simp [bytes]
  | here => decide
  | up => decide
  | name word => exact word.undivided

theorem Piece.bytes_up_iff (piece : Piece) : piece.bytes = [0x2E, 0x2E] ↔ piece = .up := by
  cases piece with
  | empty => simp [bytes]
  | here => simp [bytes]
  | up => simp [bytes]
  | name word => simpa [bytes] using word.ordinary.2

theorem Path.isAbsolute_iff (path : Path) : path.isAbsolute = true ↔ path.text.head? = some separator := by
  obtain ⟨start, pieces, leads⟩ := path
  cases start with
  | root => simp [isAbsolute, text]
  | here => simp [isAbsolute, text, separator]
  | bare =>
    cases pieces with
    | nil => simp [isAbsolute, text]
    | cons first rest =>
      have filled : first ≠ .empty := by simpa using (leads rfl).1
      have head : first.bytes ≠ [] := by
        cases first with
        | empty => exact absurd rfl filled
        | here | up => simp [Piece.bytes]
        | name word => exact word.nonempty
      obtain ⟨byte, tail, spelled⟩ := exists_cons_of_ne_nil head
      have other : byte ≠ separator := fun same =>
        first.undivided (by rw [spelled, same]; exact mem_cons_self)
      simp only [isAbsolute, text]
      rw [intercalate_pieces, spelled]
      simp [other]

theorem Path.rootDir_mem_components (path : Path) : .rootDir ∈ path.components ↔ path.isAbsolute = true := by
  have named : Component.rootDir ∉ path.pieces.filterMap Piece.component? := by
    rw [mem_filterMap]
    rintro ⟨piece, -, same⟩
    cases piece <;> simp [Piece.component?] at same
  cases start : path.start <;> simp [components, isAbsolute, start, named]

theorem Path.parentDir_mem_components (path : Path) : .parentDir ∈ path.components ↔ .up ∈ path.pieces := by
  have named : Component.parentDir ∈ path.pieces.filterMap Piece.component? ↔ .up ∈ path.pieces := by
    rw [mem_filterMap]
    constructor
    · rintro ⟨piece, among, same⟩
      cases piece with
      | up => exact among
      | empty | here | name word => simp [Piece.component?] at same
    · intro among
      exact ⟨.up, among, rfl⟩
  cases start : path.start <;> simp [components, start, named]

theorem up_mem_textPieces (text : List UInt8) :
    .up ∈ textPieces text ↔ [0x2E, 0x2E] ∈ text.splitOn separator := by
  rw [← text_pieces_bytes]
  simp [Piece.bytes_up_iff]

theorem Path.up_mem_ofText (text : List UInt8) :
    .up ∈ (Path.ofText text).pieces ↔ [0x2E, 0x2E] ∈ text.splitOn separator := by
  rw [← up_mem_textPieces]
  unfold Path.ofText
  cases textPieces text with
  | nil => simp [Path.empty]
  | cons first rest =>
    by_cases empty : first = .empty
    · cases rest <;> simp [empty, Path.empty]
    · by_cases here : first = .here <;> simp [empty, here]

def Component.path : Component → Path
  | .rootDir => .root
  | .curDir => ⟨.here, [], nofun⟩
  | .parentDir => ⟨.bare, [.up], by simp⟩
  | .normal name => ⟨.bare, [.name name], by simp⟩

inductive Node where
  | file
  | link (target : Path) (given : target.isEmpty = false)
  | directory (entries : List (Name × Node))

def Node.isLink : Node → Bool
  | .link _ _ => true
  | _ => false

/-- A place in the tree, by the names that lead to it from the root. -/
abbrev Location := List Name

def find : Node → Location → Option Node
  | node, [] => some node
  | .directory entries, name :: rest =>
    match entries.lookup name with
    | some child => find child rest
    | none => none
  | _, _ :: _ => none

theorem find_append (top : Node) (above below : Location) :
    find top (above ++ below) = (find top above).bind fun node => find node below := by
  induction above generalizing top with
  | nil => simp [find]
  | cons name rest ih =>
    cases top with
    | file => rfl
    | link target given => rfl
    | directory entries =>
      rw [cons_append, find, find]
      cases entries.lookup name with
      | none => rfl
      | some child => exact ih child

structure FileSystem where
  entries : List (Name × Node)
  cwd : Location
  maxLinks : Nat
  cwdStands : ∃ held, find (.directory entries) cwd = some (.directory held)

inductive OsError where
  | notFound
  | notADirectory
  | tooManyLinks
  | invalidInput
  deriving DecidableEq

/-- What a walk over the pieces of a path comes to: its end, an error, or a link in `place` with the
pieces behind it. -/
inductive Met where
  | arrived (place : Location)
  | failed (error : OsError)
  | link (place : Location) (target : Path) (rest : List Piece)

namespace FileSystem

def node (fs : FileSystem) (place : Location) : Option Node := find (.directory fs.entries) place

def advance (fs : FileSystem) : Location → List Piece → Met
  | place, [] => .arrived place
  | place, piece :: rest =>
    match fs.node place with
    | some (.directory entries) =>
      match piece with
      | .empty => advance fs place rest
      | .here => advance fs place rest
      | .up => advance fs place.dropLast rest
      | .name name =>
        match entries.lookup name with
        | none => .failed .notFound
        | some (.link target _) => .link place target rest
        | some _ => advance fs (place ++ [name]) rest
    | _ => .failed .notADirectory

def origin (path : Path) (place : Location) : Location := if path.isAbsolute then [] else place

def resolve (fs : FileSystem) : Nat → Location → List Piece → Except OsError Location
  | links, place, pieces =>
    match fs.advance place pieces with
    | .arrived reached => .ok reached
    | .failed error => .error error
    | .link base target rest =>
      match links with
      | 0 => .error .tooManyLinks
      | links + 1 => resolve fs links (origin target base) (target.pieces ++ rest)

def locate (fs : FileSystem) (path : Path) : Except OsError Location :=
  if path.text.contains 0 then .error .invalidInput
  else if path.isEmpty then .error .notFound
  else fs.resolve fs.maxLinks (origin path fs.cwd) path.pieces

/-- `std::fs::canonicalize`. -/
def canonicalize (fs : FileSystem) (path : Path) : Except OsError Location := fs.locate path

/-- `Path::exists`, which follows links. -/
def exists_ (fs : FileSystem) (path : Path) : Bool := (fs.locate path).isOk

/-- `symlink_metadata` finds a symbolic link: the last component is not followed,
unless a separator or a dot stands behind it. -/
def isSymlink (fs : FileSystem) (path : Path) : Bool :=
  if path.text.contains 0 then false
  else match path.pieces.getLast? with
    | some (.name name) =>
      match fs.resolve fs.maxLinks (origin path fs.cwd) path.pieces.dropLast with
      | .ok place => ((fs.node (place ++ [name])).map Node.isLink).getD false
      | .error _ => false
    | _ => false

/-- The walk that takes a missing component as a plain name. -/
def stroll (fs : FileSystem) : Location → List Piece → Met
  | place, [] => .arrived place
  | place, piece :: rest =>
    match piece with
    | .empty => stroll fs place rest
    | .here => stroll fs place rest
    | .up => stroll fs place.dropLast rest
    | .name name =>
      match fs.node (place ++ [name]) with
      | some (.link target _) => .link place target rest
      | _ => stroll fs (place ++ [name]) rest

/-- Where a path leads when at most `links` links are followed. -/
def settle (fs : FileSystem) : Nat → Location → List Piece → Option Location
  | links, place, pieces =>
    match fs.stroll place pieces with
    | .arrived reached => some reached
    | .failed _ => none
    | .link base target rest =>
      match links with
      | 0 => none
      | links + 1 => settle fs links (origin target base) (target.pieces ++ rest)

end FileSystem

def Location.pieces (place : Location) : List Piece := place.map .name

def Location.path (place : Location) : Path := ⟨.root, Location.pieces place, nofun⟩

theorem Location.pieces_append (above below : Location) :
    Location.pieces (above ++ below) = Location.pieces above ++ Location.pieces below :=
  map_append

namespace FileSystem

def Stands (fs : FileSystem) (place : Location) : Prop :=
  ∃ node, fs.node place = some node ∧ node.isLink = false

section
variable (fs : FileSystem)
include fs

theorem node_append (above below : Location) :
    fs.node (above ++ below) = (fs.node above).bind fun node => find node below :=
  find_append _ _ _

theorem node_entry (place : Location) (name : Name)
    (entries : List (Name × Node)) (directory : fs.node place = some (.directory entries)) :
    fs.node (place ++ [name]) = entries.lookup name := by
  rw [node_append, directory, Option.bind_some, find]
  cases entries.lookup name with
  | none => rfl
  | some child => exact find.eq_1 child

theorem cwd_stands : fs.Stands fs.cwd := by
  obtain ⟨held, found⟩ := fs.cwdStands
  exact ⟨.directory held, found, rfl⟩

theorem root_stands : fs.Stands [] :=
  ⟨.directory fs.entries, by simp [node, find], rfl⟩

theorem stands_above (above below : Location) (stands : fs.Stands (above ++ below)) : fs.Stands above := by
  obtain ⟨last, found, unlinked⟩ := stands
  rw [node_append] at found
  obtain ⟨node, here, onward⟩ := Option.bind_eq_some_iff.mp found
  refine ⟨node, here, ?_⟩
  cases below with
  | nil =>
    rw [find, Option.some.injEq] at onward
    exact onward ▸ unlinked
  | cons name rest =>
    cases node with
    | file => rfl
    | link target given => simp [find] at onward
    | directory entries => rfl

end

def place? : Met → Option Location
  | .arrived place => some place
  | .failed _ => none
  | .link place _ _ => some place

section
variable (fs : FileSystem)
include fs

theorem advance_stands (place : Location) (pieces : List Piece)
    (stands : fs.Stands place) (reached : Location)
    (here : place? (fs.advance place pieces) = some reached) : fs.Stands reached := by
  fun_induction advance fs place pieces with
  | case1 place | case6 place rest entries directory name target given found =>
    cases here
    exact stands
  | case2 place rest entries directory ih | case3 place rest entries directory ih =>
    exact ih stands here
  | case4 place rest entries directory ih =>
    refine ih (fs.stands_above place.dropLast (place.drop (place.length - 1)) ?_) here
    rwa [dropLast_eq_take, take_append_drop]
  | case5 | case8 => simp [place?] at here
  | case7 place rest entries directory name child unlinked found ih =>
    refine ih ⟨child, (fs.node_entry place name entries directory).trans found, ?_⟩ here
    cases child with
    | file => rfl
    | link target given => exact absurd rfl (unlinked target given)
    | directory inner => rfl

theorem origin_stands (path : Path) (place : Location)
    (stands : fs.Stands place) : fs.Stands (origin path place) := by
  unfold origin
  split
  · exact fs.root_stands
  · exact stands

theorem resolve_cases (links : Nat) (place : Location) (pieces : List Piece)
    (reached : Location) (resolved : fs.resolve links place pieces = .ok reached) :
    fs.advance place pieces = .arrived reached ∨ ∃ fewer base target rest, links = fewer + 1 ∧
        fs.advance place pieces = .link base target rest ∧
        fs.resolve fewer (origin target base) (target.pieces ++ rest) = .ok reached := by
  rw [resolve] at resolved
  cases met : fs.advance place pieces with
  | arrived last =>
    rw [met] at resolved
    exact .inl (congrArg _ (Except.ok.inj resolved))
  | failed error =>
    rw [met] at resolved
    cases resolved
  | link base target rest =>
    rw [met] at resolved
    cases links with
    | zero => cases resolved
    | succ fewer => exact .inr ⟨fewer, base, target, rest, rfl, rfl, resolved⟩

theorem resolve_stands (links : Nat) (place : Location) (pieces : List Piece)
    (stands : fs.Stands place) (reached : Location)
    (resolved : fs.resolve links place pieces = .ok reached) : fs.Stands reached := by
  induction links generalizing place pieces with
  | zero =>
    obtain met | ⟨fewer, base, target, rest, spare, -, -⟩ := fs.resolve_cases _ _ _ _ resolved
    · exact fs.advance_stands place pieces stands reached (by rw [met]; rfl)
    · cases spare
  | succ links ih =>
    obtain met | ⟨fewer, base, target, rest, spare, met, onward⟩ :=
      fs.resolve_cases _ _ _ _ resolved
    · exact fs.advance_stands place pieces stands reached (by rw [met]; rfl)
    cases spare
    have based : fs.Stands base :=
      fs.advance_stands place pieces stands base (by rw [met]; rfl)
    exact ih _ _ (fs.origin_stands target base based) onward

theorem canonicalize_stands (path : Path) (reached : Location)
    (known : fs.canonicalize path = .ok reached) : fs.Stands reached := by
  unfold canonicalize locate at known
  split at known
  · exact absurd known nofun
  split at known
  · exact absurd known nofun
  exact fs.resolve_stands _ _ _ (fs.origin_stands path fs.cwd fs.cwd_stands) reached known

end

def followedBy (fs : FileSystem) (back : List Piece) : Met → Met
  | .arrived place => fs.stroll place back
  | .failed error => .failed error
  | .link place target rest => .link place target (rest ++ back)

section
variable (fs : FileSystem)
include fs

variable (place : Location)

theorem stroll_append (front back : List Piece) :
    fs.stroll place (front ++ back) = fs.followedBy back (fs.stroll place front) := by
  fun_induction stroll fs place front with
  | case1 place => rfl
  | case2 place rest ih => exact ih
  | case3 place rest ih => exact ih
  | case4 place rest ih => exact ih
  | case5 place rest name target given found =>
    simp [stroll, found, followedBy]
  | case6 place rest name unlinked ih =>
    rw [cons_append, stroll, ← ih]
    split
    · next target given found => exact absurd found (unlinked target given)
    · rfl

theorem stroll_never_fails (pieces : List Piece)
    (error : OsError) : fs.stroll place pieces ≠ .failed error := by
  fun_induction stroll fs place pieces with
  | case1 place => nofun
  | case2 place rest ih => exact ih
  | case3 place rest ih => exact ih
  | case4 place rest ih => exact ih
  | case5 place rest name target given found => nofun
  | case6 place rest name unlinked ih => exact ih

theorem stroll_name (name : Name) (rest : List Piece)
    (unlinked : ∀ target given, fs.node (place ++ [name]) ≠ some (.link target given)) :
    fs.stroll place (.name name :: rest) = fs.stroll (place ++ [name]) rest := by
  rw [stroll]
  split
  · next target given found => exact absurd found (unlinked target given)
  · rfl

theorem stands_unlinked (stands : fs.Stands place) (target : Path) (given : target.isEmpty = false) :
    fs.node place ≠ some (.link target given) := by
  obtain ⟨node, found, unlinked⟩ := stands
  rw [found]
  intro same
  rw [Option.some.inj same] at unlinked
  exact absurd unlinked (by simp [Node.isLink])

-- A place that stands has no link on the way to it.
theorem stroll_stands (names : Location) (stands : fs.Stands (place ++ names)) :
    fs.stroll place (Location.pieces names) = .arrived (place ++ names) := by
  induction names generalizing place with
  | nil => simp [Location.pieces, stroll]
  | cons name rest ih =>
    have split : place ++ name :: rest = (place ++ [name]) ++ rest := by simp
    rw [split] at stands ⊢
    have here := fs.stands_unlinked (place ++ [name]) (fs.stands_above _ rest stands)
    exact (fs.stroll_name place name _ here).trans (ih _ stands)

theorem stroll_arrives (names reached : Location)
    (arrived : fs.stroll place (Location.pieces names) = .arrived reached) : reached = place ++ names := by
  induction names generalizing place with
  | nil => simpa [Location.pieces, stroll, eq_comm] using arrived
  | cons name rest ih =>
    rw [Location.pieces, map_cons, stroll] at arrived
    split at arrived
    · cases arrived
    · simpa using ih _ arrived

theorem stroll_link (pieces : List Piece) (base : Location)
    (target : Path) (rest : List Piece) (met : fs.stroll place pieces = .link base target rest) :
    ∃ front, pieces = front ++ rest ∧ ∀ back, fs.stroll place (front ++ back) = .link base target back := by
  fun_induction stroll fs place pieces with
  | case1 place => cases met
  | case2 place rest ih =>
    obtain ⟨front, split, every⟩ := ih met
    exact ⟨.empty :: front, congrArg _ split, fun back => (every back)⟩
  | case3 place rest ih =>
    obtain ⟨front, split, every⟩ := ih met
    exact ⟨.here :: front, congrArg _ split, fun back => (every back)⟩
  | case4 place rest ih =>
    obtain ⟨front, split, every⟩ := ih met
    exact ⟨.up :: front, congrArg _ split, fun back => (every back)⟩
  | case5 place rest name target given found =>
    cases met
    exact ⟨[.name name], rfl, fun back => by simp [stroll, found]⟩
  | case6 place rest name unlinked ih =>
    obtain ⟨front, split, every⟩ := ih met
    refine ⟨.name name :: front, congrArg _ split, fun back => ?_⟩
    rw [cons_append, fs.stroll_name place name _ unlinked]
    exact every back

theorem settle_iff (links : Nat) (place : Location) (pieces : List Piece) (reached : Location) :
    fs.settle links place pieces = some reached ↔ fs.stroll place pieces = .arrived reached ∨
      ∃ fewer base target rest, links = fewer + 1 ∧ fs.stroll place pieces = .link base target rest ∧
        fs.settle fewer (origin target base) (target.pieces ++ rest) = some reached := by
  rw [settle]
  cases met : fs.stroll place pieces with
  | arrived last => simp
  | failed error => exact absurd met (fs.stroll_never_fails place pieces error)
  | link base target rest =>
    cases links with
    | zero => simp
    | succ fewer =>
      constructor
      · intro settled
        exact .inr ⟨fewer, base, target, rest, rfl, rfl, settled⟩
      · rintro (arrived | ⟨_, _, _, _, spare, same, settled⟩)
        · cases arrived
        · cases same
          cases spare
          exact settled

end

/-- Every part of the way from `top` down to `place` leads to somewhere under `top`. -/
def StaysUnder (fs : FileSystem) (top place : Location) : Prop :=
  top <+: place ∧
    ∀ reached, top <+: reached → reached <+: place →
      ∀ links settled, fs.settle links [] (Location.pieces reached) = some settled →
        top <+: settled

/-- The first link on the way to `place`, if any, leads to somewhere under `top`, with any part of
what is written behind it. -/
def FirstLinkUnder (fs : FileSystem) (top place : Location) : Prop :=
  ∀ base target rest, fs.stroll [] (Location.pieces place) = .link base target rest →
    ∀ kept, kept <+: rest →
      ∀ links settled, fs.settle links (origin target base) (target.pieces ++ kept) = some settled →
        top <+: settled

theorem pieces_front (place : Location) (front : List Piece) (within : front <+: Location.pieces place) :
    ∃ above, above <+: place ∧ front = Location.pieces above := by
  refine ⟨place.take front.length, take_prefix _ _, ?_⟩
  rw [Location.pieces, map_take]
  exact prefix_iff_eq_take.mp within

theorem stays_under_iff (fs : FileSystem) (top place : Location) (stands : fs.Stands top)
    (below : top <+: place) : fs.StaysUnder top place ↔ fs.FirstLinkUnder top place := by
  constructor
  · intro stays base target rest met kept front links settled reaches
    obtain ⟨before, split, every⟩ := fs.stroll_link _ _ _ _ _ met
    obtain ⟨dropped, rest_eq⟩ := front
    have within : before ++ kept <+: Location.pieces place := by
      rw [split, ← rest_eq, ← append_assoc]
      exact prefix_append _ _
    obtain ⟨reached, reachedFront, written⟩ := pieces_front place _ within
    have metEarly := every kept
    rw [written] at metEarly
    -- a place above `top` stands, so no link would have been met on the way to it
    have deep : top <+: reached := by
      obtain deep | ⟨rest, topSplit⟩ := prefix_or_prefix_of_prefix below reachedFront
      · exact deep
      have walked := fs.stroll_stands [] reached (fs.stands_above reached rest (topSplit ▸ stands))
      rw [metEarly] at walked
      cases walked
    refine stays.2 reached deep reachedFront (links + 1) settled ?_
    exact (fs.settle_iff _ _ _ _).mpr (.inr ⟨links, base, target, kept, rfl, metEarly, reaches⟩)
  · intro first
    refine ⟨below, fun reached deep front links settled reaches => ?_⟩
    obtain arrived | ⟨fewer, base, target, kept, -, met, onward⟩ :=
      (fs.settle_iff _ _ _ _).mp reaches
    · rw [fs.stroll_arrives [] reached settled arrived]
      exact deep
    obtain ⟨names, rfl⟩ := front
    have whole : fs.stroll [] (Location.pieces (reached ++ names)) =
        .link base target (kept ++ Location.pieces names) := by
      rw [Location.pieces_append, stroll_append, met]
      rfl
    exact first base target _ whole kept (prefix_append _ _) fewer settled onward

/-- A place that stands is reached without a link. -/
theorem stays_under_standing (fs : FileSystem) (top place : Location) (stands : fs.Stands place)
    (below : top <+: place) : fs.StaysUnder top place := by
  obtain ⟨names, whole⟩ := below
  have topStands : fs.Stands top := fs.stands_above top names (whole ▸ stands)
  refine (fs.stays_under_iff top place topStands ⟨names, whole⟩).mpr ?_
  intro base target rest met
  have walked : fs.stroll [] (Location.pieces place) = .arrived place :=
    fs.stroll_stands [] place stands
  rw [walked] at met
  cases met

end FileSystem
end PerlLsp.FileTree
