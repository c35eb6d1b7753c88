import PerlLsp.UriKey
import PerlLsp.Utf8

/-! Paths and the URIs of their files: perl-uri/fs.rs and perl-uri/mojibake.rs as they are
built on Unix, where a path is a list of bytes. -/
namespace PerlLsp.FsPath
open Text Utf8 UriKey

def mojibakeMarkerCount (text : List Char) : Nat :=
  text.countP fun ch => ['Ã', 'Â', 'â', 'ð', '\uFFFD'].contains ch

def looksLikeMojibake (text : List Char) : Bool := mojibakeMarkerCount text > 0

def latin1Bytes (text : List Char) : Option (List UInt8) :=
  text.mapM fun ch => if ch.toNat < 256 then some ch.toNat.toUInt8 else none

def repairMojibakeText (text : List Char) : List Char :=
  if !looksLikeMojibake text then text
  else
    match (latin1Bytes text).bind decode with
    | none => text
    | some candidate =>
      if mojibakeMarkerCount candidate < mojibakeMarkerCount text then candidate else text

def repairPathMojibake (path : List UInt8) : List UInt8 :=
  match decode path with
  | none => path
  | some pathText =>
    let repaired := repairMojibakeText pathText
    if repaired = pathText then path else encode repaired

/-- What the conversions ask of the url crate and of the process. -/
structure Files where
  parse : List Char → Option Url
  fromFilePath : List UInt8 → Option Url
  toFilePath : Url → Option (List UInt8)
  currentDir : Except (List Char) (List UInt8)
  display : List UInt8 → List Char

variable (files : Files)

def isAbsolute (path : List UInt8) : Bool := path.head? = some 47

def join (directory path : List UInt8) : List UInt8 :=
  if directory = [] ∨ directory.getLast? = some 47 then directory ++ path
  else directory ++ 47 :: path

def fsPathToUri (path : List UInt8) : Except (List Char) (List Char) := do
  let absPath ←
    if isAbsolute path then .ok path
    else
      match files.currentDir with
      | .ok directory => .ok (join directory path)
      | .error e => .error ("Failed to get current directory: ".toList ++ e)
  match files.fromFilePath absPath with
  | some url => .ok url.serialized
  | none => .error ("Failed to convert path to URI: ".toList ++ files.display absPath)

def localAuthorityFileUriToPath (url : Url) : Option (List UInt8) :=
  if !isLocalFileAuthority url.host then none
  else (files.parse ("file://".toList ++ url.path)).bind files.toFilePath

def uriToFsPath (uri : List Char) : Option (List UInt8) :=
  let parseInput := (normalizeLegacyWindowsUri uri).getD uri
  (files.parse parseInput).bind fun url =>
    if url.scheme ≠ "file".toList then none
    else (files.toFilePath url <|> localAuthorityFileUriToPath files url).map repairPathMojibake

/-- What the url crate promises of an absolute path: its URL is a `file:///` one whose text parses
to it again, and is converted back to the path. -/
structure Converts (path : List UInt8) (url : Url) : Prop where
  made : files.fromFilePath path = some url
  scheme : url.scheme = "file".toList
  rooted : ∃ rest, url.serialized = "file:///".toList ++ rest
  parsed : files.parse url.serialized = some url
  back : files.toFilePath url = some path

/-- The text is what a reader of Latin-1 sees in the UTF-8 bytes of a text with fewer
markers. -/
def Garbled (text : List Char) : Prop :=
  ∃ original, latin1Bytes text = some (encode original) ∧
    mojibakeMarkerCount original < mojibakeMarkerCount text

theorem repair_same_iff (text : List Char) : repairMojibakeText text = text ↔ ¬Garbled text := by
  rw [repairMojibakeText, looksLikeMojibake]
  by_cases marked : mojibakeMarkerCount text > 0
  · cases read : (latin1Bytes text).bind decode with
    | none =>
      have clean : ¬Garbled text := fun ⟨original, bytes, _⟩ => by
        simp [bytes, decode_encode] at read
      simp [clean]
    | some candidate =>
      obtain ⟨bytes, fits, decoded⟩ := Option.bind_eq_some_iff.mp read
      have same : encode candidate = bytes := (decode_eq_some _ _).mp decoded
      have garbled : Garbled text ↔ mojibakeMarkerCount candidate < mojibakeMarkerCount text := by
        constructor
        · rintro ⟨original, other, fewer⟩
          have is : original = candidate := encode_injective (by simp_all)
          exact is ▸ fewer
        · exact fun fewer => ⟨candidate, same ▸ fits, fewer⟩
      have reads : (if mojibakeMarkerCount candidate < mojibakeMarkerCount text then candidate
          else text) = text ↔ ¬mojibakeMarkerCount candidate < mojibakeMarkerCount text := by
        split
        next fewer =>
          have other : candidate ≠ text := fun is => by simp [is] at fewer
          simp [fewer, other]
        next still => simp [still]
      rw [garbled, ← reads]
      simp [marked]
  · have clean : ¬Garbled text := fun ⟨_, _, fewer⟩ => marked (Nat.zero_lt_of_lt fewer)
    simp [marked, clean]

theorem repair_path_text (text : List Char) :
    repairPathMojibake (encode text) = encode (repairMojibakeText text) := by
  rw [repairPathMojibake, decode_encode]
  split <;> simp_all

theorem rooted_not_legacy (rest : List Char) :
    normalizeLegacyWindowsUri ("file:///".toList ++ rest) = none := by
  obtain ⟨tail, trimmed⟩ : ∃ tail, trim ("file:///".toList ++ rest) = "file:///".toList ++ tail := by
    have file : isWhitespace 'f' = false := rfl
    have slash : isWhitespace '/' = false := rfl
    refine ⟨trimEnd rest, ?_⟩
    simp +contextual [trim, trimStart, trimEnd, List.rdropWhile, List.dropWhile_append, file, slash]
  rw [normalizeLegacyWindowsUri, trimmed]
  rfl

/-- Through its URI a path comes back repaired: the same path exactly when its text is not garbled.
-/
theorem path_returns {files : Files} {text : List Char} {url : Url}
    (absolute : isAbsolute (encode text) = true) (converts : Converts files (encode text) url) :
    (fsPathToUri files (encode text)).toOption.bind (uriToFsPath files) =
        some (encode (repairMojibakeText text)) ∧
      (encode (repairMojibakeText text) = encode text ↔ ¬Garbled text) := by
  obtain ⟨rest, rooted⟩ := converts.rooted
  have uri : fsPathToUri files (encode text) = .ok url.serialized := by
    simp [fsPathToUri, absolute, converts.made, bind, Except.bind]
  have path : uriToFsPath files url.serialized = some (encode (repairMojibakeText text)) := by
    have legacy : normalizeLegacyWindowsUri url.serialized = none :=
      rooted ▸ rooted_not_legacy rest
    simp [uriToFsPath, legacy, converts.parsed, converts.scheme, converts.back, repair_path_text]
  constructor
  · rw [uri]
    exact path
  · rw [encode_injective.eq_iff]
    exact repair_same_iff text

def garbledPath : List Char := "/tmp/cafÃ©.pl".toList

def garbledUrl : Url :=
  ⟨"file:///tmp/caf%C3%83%C2%A9.pl".toList, "file".toList, none,
    "/tmp/caf%C3%83%C2%A9.pl".toList, none, none⟩

def garbledFiles : Files where
  parse uri := if uri = garbledUrl.serialized then some garbledUrl else none
  fromFilePath path := if path = encode garbledPath then some garbledUrl else none
  toFilePath url := if url = garbledUrl then some (encode garbledPath) else none
  currentDir := .ok [47]
  display _ := garbledPath

theorem garbled_converts : Converts garbledFiles (encode garbledPath) garbledUrl :=
  ⟨rfl, rfl, ⟨_, rfl⟩, rfl, rfl⟩

theorem garbled_path_returns :
    (fsPathToUri garbledFiles (encode garbledPath)).toOption.bind (uriToFsPath garbledFiles) =
        some (encode (repairMojibakeText garbledPath)) ∧
      (encode (repairMojibakeText garbledPath) = encode garbledPath ↔ ¬Garbled garbledPath) :=
  path_returns rfl garbled_converts

/-- A file that is named `cafÃ©.pl` comes back as `café.pl`. -/
theorem garbled_path_changed : ¬∀ (files : Files) (text : List Char) (url : Url),
    isAbsolute (encode text) = true → Converts files (encode text) url →
      (fsPathToUri files (encode text)).toOption.bind (uriToFsPath files) =
        some (encode text) := by
  intro returns
  have same := returns garbledFiles garbledPath garbledUrl rfl garbled_converts
  revert same
  decide +kernel

end PerlLsp.FsPath
