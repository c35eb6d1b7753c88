import PerlLsp.Text

/-! The keys under which documents are filed: perl-uri/classify.rs and the entry point of
perl-uri/normalize.rs. A URI is a list of scalar values. Parsing and serializing a URL
belong to the url crate and come as a parameter, as do the conversions between paths and
URIs, which ask the file system. -/
namespace PerlLsp.UriKey
open Text

/-- What the keys read of a parsed URL; `serialized` is its `as_str`. -/
structure Url where
  serialized : List Char
  scheme : List Char
  host : Option (List Char)
  path : List Char
  query : Option (List Char)
  fragment : Option (List Char)
  deriving DecidableEq

def isLocalFileAuthority (host : Option (List Char)) : Bool :=
  host ∈ ["localhost", "127.0.0.1", "::1", "[::1]"].map fun name => some name.toList

def localFileUriWithoutAuthority (parsed : Url) : List Char :=
  "file://".toList ++ parsed.path ++ (parsed.query.elim [] fun query => '?' :: query) ++
    parsed.fragment.elim [] fun fragment => '#' :: fragment

def stripAsciiPrefix (value marker : List Char) : Option (List Char) :=
  if eqIgnoreAsciiCase (value.take marker.length) marker then some (value.drop marker.length)
  else none

def stripLocalhostAuthority (path : List Char) : Option (List Char) :=
  (stripAsciiPrefix path "localhost".toList).bind fun
    | '/' :: rest => some rest
    | '\\' :: rest => some rest
    | _ => none

def uriPathKeyEncodeSet (byte : UInt8) : Bool :=
  byte < 0x20 || byte == 0x7F || byte ∈ " \"#%<>?\x60\x7b\x7d".toList.map fun scalar => scalar.toNat.toUInt8

def percentByte (byte : UInt8) : List Char :=
  ['%', (Nat.digitChar (byte.toNat / 16)).toUpper, (Nat.digitChar (byte.toNat % 16)).toUpper]

def encodeUriPathKeyComponent (component : List Char) : List Char :=
  component.flatMap fun scalar =>
    (String.utf8EncodeChar scalar).flatMap fun byte =>
      if byte ≥ 0x80 || uriPathKeyEncodeSet byte then percentByte byte
      else [Char.ofNat byte.toNat]

variable (path : List Char)

def encodePath : List Char :=
  ['/'].intercalate ((path.splitOn '/').map encodeUriPathKeyComponent)

def slashes : List Char :=
  path.map fun scalar => if scalar = '\\' then '/' else scalar

def normalizeUncPathToKey : Option (List Char) :=
  let withoutPrefix :=
    match path with
    | '\\' :: '\\' :: rest => some rest
    | '/' :: '/' :: rest => some rest
    | _ => none
  withoutPrefix.bind fun rest =>
    match ((slashes rest).splitOn '/').filter fun segment => !segment.isEmpty with
    | server :: share :: segments =>
      let share := encodeUriPathKeyComponent share
      let rest := ['/'].intercalate (segments.map encodeUriPathKeyComponent)
      if rest.isEmpty then some ("file://".toList ++ server ++ '/' :: share)
      else some ("file://".toList ++ server ++ '/' :: share ++ '/' :: rest)
    | _ => none

def normalizeWindowsPathToKey : Option (List Char) :=
  match path.dropWhile (· == '/') with
  | drive :: separator :: next :: rest =>
    if drive.isAlpha && (separator == ':' || separator == '|') then
      let tail := slashes (next :: rest)
      let rooted := if tail.head? = some '/' then tail.tail else tail
      some ("file:///".toList ++ drive.toLower :: ':' :: '/' :: encodePath rooted)
    else none
  | _ => none

def normalizeLegacyWindowsUri (uri : List Char) : Option (List Char) :=
  let trimmed := trim uri
  let path :=
    match stripAsciiPrefix trimmed "file://".toList with
    | some rest => if rest.head? = some '/' then none else some rest
    | none => some trimmed
  if trimmed.isEmpty then none
  else
    path.bind fun path =>
      let path := (stripLocalhostAuthority path).getD path
      normalizeWindowsPathToKey path <|> normalizeUncPathToKey path

def lowerDrive (value : List Char) : List Char :=
  if "file:///".toList.isPrefixOf value then
    match value.drop 8 with
    | drive :: separator :: rest =>
      if (separator == ':' || separator == '|') && drive.isAlpha then
        "file:///".toList ++ drive.toLower :: ':' :: rest
      else value
    | _ => value
  else value

def uriKey (parse : List Char → Option Url) (uri : List Char) : List Char :=
  let trimmed := trim uri
  match normalizeLegacyWindowsUri trimmed with
  | some normalized => normalized
  | none =>
    match parse trimmed with
    | none => trimmed
    | some parsed =>
      lowerDrive (if parsed.scheme = "file".toList && isLocalFileAuthority parsed.host then
        localFileUriWithoutAuthority parsed else parsed.serialized)

structure Paths where
  isAbsolute : List Char → Bool
  fsPathToUri : List Char → Option (List Char)
  uriToFsPath : List Char → Option (List Char)

def normalizeUri (parse : List Char → Option Url) (paths : Paths) (uri : List Char) : List Char :=
  let trimmed := trim uri
  if trimmed.isEmpty then []
  else
    let absolute := if paths.isAbsolute trimmed then paths.fsPathToUri trimmed else none
    match normalizeLegacyWindowsUri trimmed <|> absolute with
    | some normalized => normalized
    | none =>
      match parse trimmed with
      | some parsed =>
        if parsed.scheme = "file".toList && isLocalFileAuthority parsed.host then
          uriKey parse trimmed
        else parsed.serialized
      | none =>
        let rebuilt :=
          if "file://".toList.isPrefixOf trimmed then
            (paths.uriToFsPath trimmed).bind paths.fsPathToUri
          else none
        (paths.fsPathToUri trimmed <|> rebuilt).getD trimmed

example : uriKey (fun _ => none) "C:\\dir one\\a.pl".toList =
    "file:///c:/dir%20one/a.pl".toList := by decide

end PerlLsp.UriKey
