import Mathlib.Data.Option.Basic
import PerlLsp.FsPath

/-! Keys of keys: when `uri_key` of perl-uri/classify.rs leaves a key as it is. -/
namespace PerlLsp.UriKey
open Text List Bool

def urlKey (parsed : Url) : List Char :=
  lowerDrive (if parsed.scheme = "file".toList && isLocalFileAuthority parsed.host then
    localFileUriWithoutAuthority parsed else parsed.serialized)

/-- A file of this machine that is named by a host. -/
def LocalFile (url : Url) : Prop :=
  url.scheme = "file".toList ∧ isLocalFileAuthority url.host = true

def Drive (value : List Char) (drive separator : Char) (rest : List Char) : Prop :=
  value = "file:///".toList ++ drive :: separator :: rest ∧ drive.isAlpha = true ∧
    (separator = ':' ∨ separator = '|')

/-- What a URL standard's parser promises of its serializations: no blanks at their ends, the same
URL when parsed, and so for a file URL's without its host or with its drive letter in lower case. -/
structure Serializes (parse : List Char → Option Url) : Prop where
  trimmed : ∀ text url, parse text = some url → trim url.serialized = url.serialized
  reparsed : ∀ text url, parse text = some url → parse url.serialized = some url
  hostless : ∀ text url rest, parse text = some url →
    url.serialized = "file:///".toList ++ rest → url.host = none
  path : ∀ text url, parse text = some url → url.scheme = "file".toList → url.path.head? = some '/'
  withoutHost : ∀ text url, parse text = some url → url.scheme = "file".toList →
    ∃ other, parse (localFileUriWithoutAuthority url) = some other ∧
      other.serialized = localFileUriWithoutAuthority url
  drive : ∀ text url drive separator rest, parse text = some url →
    Drive url.serialized drive separator rest →
    ∃ other, parse ("file:///".toList ++ drive.toLower :: ':' :: rest) = some other ∧
      other.serialized = "file:///".toList ++ drive.toLower :: ':' :: rest

/-- The text is no legacy Windows form of another key. -/
def Modern (text : List Char) : Prop :=
  ∀ other, normalizeLegacyWindowsUri text = some other → other = text

/-- The canonical text of a legacy form is modern and URL parsing keeps it. Other URLs are modern in
their serialization, unless they name this machine's files by a host. -/
def Settled (parse : List Char → Option Url) (uri : List Char) : Prop :=
  match normalizeLegacyWindowsUri (trim uri) with
  | some form => Modern form ∧ (normalizeLegacyWindowsUri form = none →
      ∀ parsed, parse form = some parsed → urlKey parsed = form)
  | none => ∀ parsed, parse (trim uri) = some parsed →
      LocalFile parsed ∨ Modern parsed.serialized

theorem trim_start_ends {text : List Char} (solid : text.head?.all fun ch => !isWhitespace ch) :
    trimStart text = text := by
  cases text with
  | nil => rfl
  | cons first rest => simp_all [trimStart]

theorem trim_trim (text : List Char) : trim (trim text) = trim text := by
  have start : trimStart (trim text) = trim text := by
    apply trim_start_ends
    obtain ⟨tail, split⟩ := rdropWhile_prefix isWhitespace (l := trimStart text)
    have head := head?_dropWhile_not isWhitespace text
    cases shape : trim text with
    | nil => rfl
    | cons first rest =>
        have front : trimStart text = first :: (rest ++ tail) := by
          rw [← split]
          exact congrArg (· ++ tail) shape
        rw [← trimStart, front] at head
        simpa using head
  rw [trim, start, trim, trimEnd, trimEnd, rdropWhile_idempotent]

theorem trim_file (middle tail : List Char) (nonempty : tail ≠ [])
    (bare : ∀ scalar ∈ tail, isWhitespace scalar = false) :
    trim ("file://".toList ++ middle ++ tail) = "file://".toList ++ middle ++ tail := by
  obtain ⟨front, last, rfl⟩ := (eq_nil_or_concat tail).resolve_left nonempty
  have file : isWhitespace 'f' = false := rfl
  have ends : isWhitespace last = false := bare last (by simp)
  rw [trim, trim_start_ends (by simp [file]), trimEnd, concat_eq_append, ← append_assoc,
    rdropWhile_concat_neg _ _ _ (by simp [ends])]

theorem encoded_bytes_bare : ((List.range 256).all fun byte =>
    (if byte.toUInt8 ≥ 0x80 || uriPathKeyEncodeSet byte.toUInt8 then percentByte byte.toUInt8
      else [Char.ofNat byte.toUInt8.toNat]).all fun scalar => !isWhitespace scalar) = true := by
  decide +kernel

theorem component_bare (component : List Char) :
    ∀ scalar ∈ encodeUriPathKeyComponent component, isWhitespace scalar = false := by
  intro scalar among
  simp only [encodeUriPathKeyComponent, mem_flatMap] at among
  obtain ⟨_, _, byte, _, among⟩ := among
  have bare := all_eq_true.mp encoded_bytes_bare byte.toNat (mem_range.mpr byte.toNat_lt)
  rw [show byte.toNat.toUInt8 = byte by simp] at bare
  simpa using all_eq_true.mp bare scalar among

theorem joined_bare (components : List (List Char)) :
    ∀ scalar ∈ ['/'].intercalate (components.map encodeUriPathKeyComponent),
      isWhitespace scalar = false := by
  induction components with
  | nil => simp [List.intercalate]
  | cons component rest ih =>
      have slash : isWhitespace '/' = false := rfl
      have first := component_bare component
      cases rest with
      | nil => simpa [List.intercalate] using first
      | cons next others =>
          simp only [List.intercalate, map_cons, intersperse_cons_cons, flatten_cons,
            mem_append, mem_singleton] at ih ⊢
          rintro scalar (own | rfl | later)
          · exact first scalar own
          · exact slash
          · exact ih scalar later

theorem legacy_trimmed {text form : List Char} (legacy : normalizeLegacyWindowsUri text = some form) :
    trim form = form := by
  have slash : isWhitespace '/' = false := rfl
  have windows (path) (key : normalizeWindowsPathToKey path = some form) : trim form = form := by
    rw [normalizeWindowsPathToKey] at key
    split at key
    next drive _ next rest _ =>
      split at key
      · have is := trim_file ['/', drive.toLower, ':'] ('/' :: encodePath
          (if (slashes (next :: rest)).head? = some '/' then (slashes (next :: rest)).tail
            else slashes (next :: rest))) nofun (forall_mem_cons.mpr ⟨slash, joined_bare _⟩)
        rw [← Option.some.inj key]
        exact is
      · cases key
    · cases key
  have unc (path) (key : normalizeUncPathToKey path = some form) : trim form = form := by
    obtain ⟨rest, -, key⟩ := Option.bind_eq_some_iff.mp key
    dsimp only at key
    split at key
    next server share segments _ =>
      have first : ∀ scalar ∈ '/' :: encodeUriPathKeyComponent share, isWhitespace scalar = false :=
        forall_mem_cons.mpr ⟨slash, component_bare share⟩
      split at key
      · rw [← Option.some.inj key]
        exact trim_file server _ nofun first
      · rw [← Option.some.inj key, append_assoc]
        exact trim_file server _ nofun
          (forall_mem_append.mpr ⟨first, forall_mem_cons.mpr ⟨slash, joined_bare segments⟩⟩)
    · cases key
  rw [normalizeLegacyWindowsUri] at legacy
  dsimp only at legacy
  split at legacy
  · cases legacy
  obtain ⟨path, -, key⟩ := Option.bind_eq_some_iff.mp legacy
  rcases (Option.orElse_eq_some _ _ _).mp key with key | ⟨-, key⟩
  · exact windows _ key
  · exact unc _ key

variable {parse : List Char → Option Url} {text : List Char}

theorem key_of_form (solid : trim text = text) (modern : normalizeLegacyWindowsUri text = none) :
    uriKey parse text = (parse text).elim text urlKey := by
  rw [uriKey, solid, modern]
  cases parse text <;> rfl

theorem rooted_modern (rest : List Char) :
    normalizeLegacyWindowsUri ("file:///".toList ++ rest) = none := FsPath.rooted_not_legacy rest

theorem lower_drive_cases (value : List Char) : lowerDrive value = value ∨
    ∃ drive separator rest, Drive value drive separator rest ∧
      lowerDrive value = "file:///".toList ++ drive.toLower :: ':' :: rest := by
  rw [lowerDrive]
  split
  next rooted =>
    obtain ⟨tail, rfl⟩ := List.isPrefixOf_iff_prefix.mp rooted
    split
    next drive separator rest shape =>
      split
      next isDrive =>
        have is : tail = drive :: separator :: rest := shape
        simp only [and_eq_true, or_eq_true, beq_iff_eq] at isDrive
        exact .inr ⟨drive, separator, rest, ⟨by rw [is], isDrive.2, isDrive.1⟩, rfl⟩
      · exact .inl rfl
    · exact .inl rfl
  · exact .inl rfl

theorem lower_twice : ∀ code < 128, (Char.ofNat code).toLower.toLower = (Char.ofNat code).toLower := by
  decide +kernel

theorem lower_lowered {drive : Char} (alpha : drive.isAlpha = true) (rest : List Char) :
    lowerDrive ("file:///".toList ++ drive.toLower :: ':' :: rest) =
      "file:///".toList ++ drive.toLower :: ':' :: rest := by
  have ascii : drive.toNat < 128 := by
    unfold Char.isAlpha Char.isUpper Char.isLower at alpha
    simp only [or_eq_true, and_eq_true, UInt32.le_iff_toNat_le] at alpha
    simp at alpha
    omega
  have still := lower_twice drive.toNat ascii
  rw [Char.ofNat_toNat] at still
  rcases lower_drive_cases ("file:///".toList ++ drive.toLower :: ':' :: rest) with
    same | ⟨other, separator, more, ⟨is, -⟩, lowered⟩
  · exact same
  · obtain ⟨rfl, tail⟩ := List.cons.inj (append_cancel_left is)
    rw [lowered, still, (List.cons.inj tail).2]

theorem url_key_local {url : Url} (named : LocalFile url) :
    urlKey url = lowerDrive (localFileUriWithoutAuthority url) := by
  rw [urlKey, if_pos (by rw [and_eq_true, decide_eq_true_eq]; exact named)]

theorem url_key_other {url : Url} (named : ¬LocalFile url) : urlKey url = lowerDrive url.serialized := by
  rw [urlKey, if_neg (by rw [and_eq_true, decide_eq_true_eq]; exact named)]

/-- A modern text that is the serialization of its own URL. -/
theorem key_of_serialized (serializes : Serializes parse) {url : Url} (parsed : parse text = some url)
    (same : url.serialized = text)
    (named : ¬LocalFile url) (modern : Modern text) (lowered : lowerDrive text = text) :
    uriKey parse text = text := by
  have solid : trim text = text := same ▸ serializes.trimmed text url parsed
  cases legacy : normalizeLegacyWindowsUri text with
  | some other => rw [uriKey, solid, legacy, modern other legacy]
  | none => simp [key_of_form solid legacy, parsed, url_key_other named, same, lowered]

theorem local_rooted {url : Url} {rest : List Char} (path : url.path = '/' :: rest) :
    ∃ tail, localFileUriWithoutAuthority url = "file:///".toList ++ tail := by
  have joined (query fragment : List Char) : "file://".toList ++ '/' :: rest ++ query ++ fragment =
      "file:///".toList ++ (rest ++ query ++ fragment) := by simp
  delta localFileUriWithoutAuthority
  rw [path]
  exact ⟨_, joined _ _⟩

theorem url_key_again (serializes : Serializes parse) {url : Url} (parsed : parse text = some url)
    (modern : LocalFile url ∨ Modern url.serialized) : uriKey parse (urlKey url) = urlKey url := by
  have hostless {text rest} {other : Url} (known : parse text = some other)
      (is : other.serialized = "file:///".toList ++ rest) : ¬LocalFile other := fun named => by
    have gone := named.2
    rw [serializes.hostless text other rest known is] at gone
    cases gone
  have rooted (rest : List Char) : Modern ("file:///".toList ++ rest) :=
    fun other legacy => by cases (rooted_modern rest).symm.trans legacy
  obtain ⟨value, base, key, known, same, named, modernValue⟩ : ∃ value base,
      urlKey url = lowerDrive value ∧ parse value = some base ∧ base.serialized = value ∧
      ¬LocalFile base ∧ Modern value := by
    by_cases named : LocalFile url
    · obtain ⟨base, known, same⟩ := serializes.withoutHost text url parsed named.1
      obtain ⟨rest, path⟩ := head?_eq_some_iff.mp (serializes.path text url parsed named.1)
      obtain ⟨tail, is⟩ := local_rooted path
      refine ⟨_, base, url_key_local named, known, same, @hostless _ _ base known (same.trans is), ?_⟩
      rw [is]
      exact rooted _
    · exact ⟨_, url, url_key_other named, serializes.reparsed text url parsed, rfl, named,
        modern.resolve_left named⟩
  rw [key]
  rcases lower_drive_cases value with still | ⟨drive, separator, rest, isDrive, lowered⟩
  · rw [still]
    exact key_of_serialized serializes known same named modernValue still
  obtain ⟨other, again, is⟩ :=
    serializes.drive value base drive separator rest known (same ▸ isDrive)
  rw [lowered]
  exact key_of_serialized serializes again is (hostless again is) (rooted _) (lower_lowered isDrive.2.1 rest)

def samplePath (text : String) : Url :=
  ⟨("file:///" ++ text).toList, "file".toList, none, ('/' :: text.toList), none, none⟩

/-- The URL standard on two texts: it keeps the case of a drive and takes dot segments out. -/
def sampleParse (text : List Char) : Option Url :=
  if text = "file:///C:/b.pl".toList then some (samplePath "C:/b.pl")
  else if text = "file:///c:/b.pl".toList ∨ text = "file:///c:/a/../b.pl".toList then
    some (samplePath "c:/b.pl")
  else none

theorem sample_cases {text : List Char} {url : Url} (parsed : sampleParse text = some url) :
    url = samplePath "C:/b.pl" ∨ url = samplePath "c:/b.pl" := by
  rw [sampleParse] at parsed
  split at parsed
  · exact .inl (Option.some.inj parsed).symm
  · split at parsed
    · exact .inr (Option.some.inj parsed).symm
    · cases parsed

theorem sample_serializes : Serializes sampleParse := by
  constructor
  · intro text url parsed
    rcases sample_cases parsed with rfl | rfl <;> decide +kernel
  · intro text url parsed
    rcases sample_cases parsed with rfl | rfl <;> decide +kernel
  · intro text url rest parsed _
    rcases sample_cases parsed with rfl | rfl <;> rfl
  · intro text url parsed _
    rcases sample_cases parsed with rfl | rfl <;> rfl
  · intro text url parsed _
    rcases sample_cases parsed with rfl | rfl
    · exact ⟨samplePath "C:/b.pl", by decide +kernel⟩
    · exact ⟨samplePath "c:/b.pl", by decide +kernel⟩
  · rintro text url drive separator rest parsed ⟨is, -, -⟩
    refine ⟨samplePath "c:/b.pl", ?_⟩
    obtain ⟨letter, text, whole⟩ : ∃ letter, url.serialized =
        "file:///".toList ++ letter :: ':' :: "/b.pl".toList ∧ letter.toLower = 'c' := by
      rcases sample_cases parsed with rfl | rfl
      · exact ⟨'C', by decide +kernel⟩
      · exact ⟨'c', by decide +kernel⟩
    obtain ⟨rfl, tail⟩ := List.cons.inj (append_cancel_left (is.symm.trans text))
    rw [whole, (List.cons.inj tail).2]
    decide +kernel

end PerlLsp.UriKey
