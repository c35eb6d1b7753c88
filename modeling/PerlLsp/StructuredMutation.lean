import PerlLsp.Text
import PerlLsp.Utf8

/-! `parse_structured_mutation` of perl-dap/src/mutation/structured_value.rs: a recursive
descent over the bytes behind the `json:` prefix, with the budgets of a profile. The
parser's place is kept as the bytes from `pos` on. serde_json's serialisation and the
content digest are parameters. -/
namespace PerlLsp.StructuredMutation
open Utf8 Text

structure StructuredMutationLimits where
  maxInputBytes : Nat
  maxScalarBytes : Nat
  maxAggregateBytes : Nat
  maxDepth : Nat
  maxNodes : Nat
  maxEntries : Nat
  maxSignificantDigits : Nat
  maxAbsoluteExponent : Nat

def pinnedV1Maxima : StructuredMutationLimits where
  maxInputBytes := 65536
  maxScalarBytes := 32768
  maxAggregateBytes := 65536
  maxDepth := 16
  maxNodes := 1024
  maxEntries := 512
  maxSignificantDigits := 256
  maxAbsoluteExponent := 4096

def StructuredMutationLimits.withinPinnedV1 (limits : StructuredMutationLimits) : Bool :=
  limits.maxInputBytes ≤ pinnedV1Maxima.maxInputBytes &&
    limits.maxScalarBytes ≤ pinnedV1Maxima.maxScalarBytes &&
    limits.maxAggregateBytes ≤ pinnedV1Maxima.maxAggregateBytes &&
    limits.maxDepth ≤ pinnedV1Maxima.maxDepth && limits.maxNodes ≤ pinnedV1Maxima.maxNodes &&
    limits.maxEntries ≤ pinnedV1Maxima.maxEntries &&
    limits.maxSignificantDigits ≤ pinnedV1Maxima.maxSignificantDigits &&
    limits.maxAbsoluteExponent ≤ pinnedV1Maxima.maxAbsoluteExponent

inductive StructuredRefusal where
  | missingStructuredPrefix
  | inputTooLarge (limit : Nat)
  | depthExceeded (limit : Nat)
  | tooManyNodes (limit : Nat)
  | aggregateTooLarge (limit : Nat)
  | scalarTooLarge (limit : Nat)
  | tooManyEntries (limit : Nat)
  | duplicateKey (key : List Char)
  | tooManyDigits (limit : Nat)
  | exponentTooLarge (limit : Nat)
  | integerOutOfRange
  | invalidSyntax (offset : Nat)
  | limitsExceedPinnedProfile
deriving DecidableEq

inductive StructuredValue where
  | null
  | bool (truth : Bool)
  | integer (value : Int)
  | decimal (canonical : List Char)
  | string (text : List Char)
  | array (items : List StructuredValue)
  | object (entries : List (List Char × StructuredValue))

structure MutationStructuredValueV1 (Digest : Type) where
  schemaVersion : Nat
  value : StructuredValue
  fingerprint : Digest

def mutationStructuredValueSchemaVersion : Nat := 1

def structuredPrefix : List Char := ['j', 's', 'o', 'n', ':']

def containerDelimiterBytes : Nat := 2

def byte (scalar : Char) : UInt8 := UInt8.ofNat scalar.val.toNat

/-- `input[pos..]`, `pos` and the two counters. -/
structure Parser where
  rest : List UInt8
  pos : Nat
  nodes : Nat
  aggregateBytes : Nat

namespace Parser

def new (input : List UInt8) : Parser := ⟨input, 0, 0, 0⟩

/-- `input.get(pos)` -/
def get (p : Parser) : Option UInt8 := p.rest.head?

def advance (p : Parser) (count : Nat) : Parser :=
  { p with rest := p.rest.drop count, pos := p.pos + count }

/-- `while matches!(input.get(pos), ..) { pos += 1 }` -/
def advanceWhile (p : Parser) (accepted : UInt8 → Bool) : Parser :=
  p.advance (p.rest.takeWhile accepted).length

end Parser

def isWs (b : UInt8) : Bool := b == byte ' ' || b == byte '\t' || b == byte '\n' || b == byte '\r'

def isAsciiDigit (b : UInt8) : Bool := byte '0' ≤ b && b ≤ byte '9'

def Parser.skipWs (p : Parser) : Parser := p.advanceWhile isWs

def Parser.skipDigits (p : Parser) : Parser := p.advanceWhile isAsciiDigit

def Parser.atDigit (p : Parser) : Bool := p.get.any isAsciiDigit

section Scalars
variable (limits : StructuredMutationLimits)

/-- `bump_node` behind its check of the depth. -/
def bumpNode (p : Parser) : Except StructuredRefusal Parser :=
  if limits.maxNodes < p.nodes + 1 then .error (.tooManyNodes limits.maxNodes)
  else .ok { p with nodes := p.nodes + 1 }

def chargeBytes (count : Nat) (p : Parser) : Except StructuredRefusal Parser :=
  let total := min (p.aggregateBytes + count) usizeMax
  if limits.maxAggregateBytes < total then .error (.aggregateTooLarge limits.maxAggregateBytes)
  else .ok { p with aggregateBytes := total }

def parseLiteral (word : List Char) (value : StructuredValue) (p : Parser) :
    Except StructuredRefusal (StructuredValue × Parser) :=
  if encode word <+: p.rest then do
    let p ← chargeBytes limits (encode word).length (p.advance (encode word).length)
    .ok (value, p)
  else .error (.invalidSyntax p.pos)

def hexDigit (b : UInt8) : Option Nat :=
  if byte '0' ≤ b ∧ b ≤ byte '9' then some (b.toNat - (byte '0').toNat)
  else if byte 'a' ≤ b ∧ b ≤ byte 'f' then some (b.toNat - (byte 'a').toNat + 10)
  else if byte 'A' ≤ b ∧ b ≤ byte 'F' then some (b.toNat - (byte 'A').toNat + 10)
  else none

def hexSteps (errorOffset : Nat) : Nat → Nat → List UInt8 → Except StructuredRefusal Nat
  | 0, value, _ => .ok value
  | _ + 1, _, [] => .error (.invalidSyntax errorOffset)
  | steps + 1, value, b :: rest =>
    match hexDigit b with
    | some digit => hexSteps errorOffset steps (value * 16 + digit) rest
    | none => .error (.invalidSyntax errorOffset)

def hex4 (input : List UInt8) (errorOffset : Nat) : Except StructuredRefusal Nat :=
  hexSteps errorOffset 4 0 input

/-- `char::from_u32` -/
def charFromU32 (value : Nat) : Option Char :=
  if value.isValidChar then some (Char.ofNat value) else none

/-- The scalar and the number of bytes it takes. -/
def decodeUnicodeEscape (p : Parser) : Except StructuredRefusal (Char × Nat) := do
  let unit ← hex4 (p.rest.drop 2) p.pos
  if 0xDC00 ≤ unit ∧ unit ≤ 0xDFFF then .error (.invalidSyntax p.pos)
  else if 0xD800 ≤ unit ∧ unit ≤ 0xDBFF then
    if p.rest[6]? ≠ some (byte '\\') ∨ p.rest[7]? ≠ some (byte 'u') then
      .error (.invalidSyntax p.pos)
    else do
      let low ← hex4 (p.rest.drop 8) (p.pos + 6)
      if ¬ (0xDC00 ≤ low ∧ low ≤ 0xDFFF) then .error (.invalidSyntax p.pos)
      else
        match charFromU32 (0x10000 + (unit - 0xD800) * 0x400 + (low - 0xDC00)) with
        | some scalar => .ok (scalar, 12)
        | none => .error (.invalidSyntax p.pos)
  else
    match charFromU32 unit with
    | some scalar => .ok (scalar, 6)
    | none => .error (.invalidSyntax p.pos)

def shortEscapes : List (UInt8 × Char) :=
  [(byte '"', '"'), (byte '\\', '\\'), (byte '/', '/'), (byte 'b', '\x08'), (byte 'f', '\x0c'),
    (byte 'n', '\n'), (byte 'r', '\r'), (byte 't', '\t')]

/-- One character of a string, from the byte `b` on, and the number of bytes it takes. -/
def parseChar (b : UInt8) (p : Parser) : Except StructuredRefusal (Char × Nat) :=
  if b = byte '\\' then
    match p.rest[1]? with
    | none => .error (.invalidSyntax p.pos)
    | some escape =>
      match shortEscapes.lookup escape with
      | some replacement => .ok (replacement, 2)
      | none =>
        if escape = byte 'u' then decodeUnicodeEscape p else .error (.invalidSyntax p.pos)
  else if b < 0x80 then
    if b < 0x20 then .error (.invalidSyntax p.pos) else .ok (Char.ofNat b.toNat, 1)
  else
    match (decode p.rest).bind List.head? with
    | some scalar => .ok (scalar, scalar.utf8Size)
    | none => .error (.invalidSyntax p.pos)

-- The loop of `parse_string`. Each turn takes a byte at least, so the number of bytes left bounds
-- the turns; when none is left it ends in the same refusal.
def stringLoop : Nat → List Char → Parser → Except StructuredRefusal (StructuredValue × Parser)
  | 0, _, p => .error (.invalidSyntax p.pos)
  | turns + 1, decoded, p =>
    match p.get with
    | none => .error (.invalidSyntax p.pos)
    | some b =>
      if b = byte '"' then do
        let p ← chargeBytes limits (size decoded) (p.advance 1)
        .ok (.string decoded, p)
      else do
        let (scalar, consumed) ← parseChar b p
        let decoded := decoded ++ [scalar]
        if limits.maxScalarBytes < size decoded then
          .error (.scalarTooLarge limits.maxScalarBytes)
        else stringLoop turns decoded (p.advance consumed)

/-- The byte at the place is passed as the opening quote. -/
def parseString (p : Parser) : Except StructuredRefusal (StructuredValue × Parser) :=
  stringLoop limits (p.advance 1).rest.length [] (p.advance 1)

end Scalars

section Numbers
variable (limits : StructuredMutationLimits)

def i64Max : Nat := 2 ^ 63 - 1

/-- `checked_mul(10)` and `checked_add` of one digit. -/
def magnitudeStep (magnitude : Option Nat) (d : UInt8) : Option Nat := do
  let acc ← magnitude
  let shifted := acc * 10
  if i64Max < shifted then none
  else
    let next := shifted + (d.toNat - (byte '0').toNat)
    if i64Max < next then none else some next

def magnitudeOf (digits : List UInt8) : Option Nat := digits.foldl magnitudeStep (some 0)

/-- `parse::<i64>` -/
def parseI64 (text : List Char) : Option Int :=
  let negative := text.head? = some '-'
  let digits := if negative ∨ text.head? = some '+' then text.tail else text
  if digits = [] ∨ digits.all Char.isDigit = false then none
  else
    let magnitude : Int := Nat.ofDigitChars 10 digits 0
    let value := if negative then -magnitude else magnitude
    if -2 ^ 63 ≤ value ∧ value < 2 ^ 63 then some value else none

def parseInteger (p : Parser) : Except StructuredRefusal Parser :=
  if p.atDigit then
    let q := p.advance 1
    if p.get = some (byte '0') then
      if q.atDigit then .error (.invalidSyntax q.pos) else .ok q
    else .ok q.skipDigits
  else .error (.invalidSyntax p.pos)

def parseFraction (p : Parser) : Except StructuredRefusal (Bool × Parser) :=
  if p.get = some (byte '.') then
    let q := p.advance 1
    if q.atDigit then .ok (true, q.skipDigits) else .error (.invalidSyntax q.pos)
  else .ok (false, p)

def parseExponent (p : Parser) : Except StructuredRefusal (Bool × Parser) :=
  if p.get = some (byte 'e') ∨ p.get = some (byte 'E') then
    let q := p.advance 1
    let negative := q.get = some (byte '-')
    let q := if negative ∨ q.get = some (byte '+') then q.advance 1 else q
    let digits := q.rest.takeWhile isAsciiDigit
    if digits = [] then .error (.invalidSyntax q.pos)
    else
      match magnitudeOf digits with
      | none => .error (.exponentTooLarge limits.maxAbsoluteExponent)
      | some magnitude =>
        let exponent : Int := if negative then -magnitude else magnitude
        if limits.maxAbsoluteExponent < exponent.natAbs then
          .error (.exponentTooLarge limits.maxAbsoluteExponent)
        else .ok (true, q.skipDigits)
  else .ok (false, p)

/-- The end of `parse_number`, with the number's text. -/
def numberValue (isDecimal : Bool) (text : List Char) (p : Parser) :
    Except StructuredRefusal (StructuredValue × Parser) :=
  if isDecimal = false then
    match parseI64 text with
    | some integer => do
        let p ← chargeBytes limits (size text) p
        .ok (.integer integer, p)
    | none => .error .integerOutOfRange
  else if limits.maxSignificantDigits < text.countP Char.isDigit then
    .error (.tooManyDigits limits.maxSignificantDigits)
  else do
    let p ← chargeBytes limits (size text) p
    .ok (.decimal text, p)

def parseNumber (p : Parser) : Except StructuredRefusal (StructuredValue × Parser) := do
  let start := p
  let p := if p.get = some (byte '-') then p.advance 1 else p
  let p ← parseInteger p
  let (fraction, p) ← parseFraction p
  let (exponent, p) ← parseExponent limits p
  match decode (start.rest.take (p.pos - start.pos)) with
  | none => .error (.invalidSyntax start.pos)
  | some text => numberValue limits (fraction || exponent) text p

end Numbers

section Containers
variable (limits : StructuredMutationLimits)
  (parse : Parser → Except StructuredRefusal (StructuredValue × Parser))

-- The loops run down the entries that are still allowed, `max_entries - items.len()`; with none
-- left their check refuses.
def arrayLoop : Nat → List StructuredValue → Parser →
    Except StructuredRefusal (StructuredValue × Parser)
  | 0, _, _ => .error (.tooManyEntries limits.maxEntries)
  | left + 1, items, p => do
      let (item, p) ← parse p
      let items := items ++ [item]
      let p := p.skipWs
      if p.get = some (byte ',') then arrayLoop left items (p.advance 1)
      else if p.get = some (byte ']') then do
        let p ← chargeBytes limits containerDelimiterBytes (p.advance 1)
        .ok (.array items, p)
      else .error (.invalidSyntax p.pos)

def parseArray (p : Parser) : Except StructuredRefusal (StructuredValue × Parser) :=
  let p := (p.advance 1).skipWs
  if p.get = some (byte ']') then do
    let p ← chargeBytes limits containerDelimiterBytes (p.advance 1)
    .ok (.array [], p)
  else arrayLoop limits parse limits.maxEntries [] p

def parseKey (entries : List (List Char × StructuredValue)) (p : Parser) :
    Except StructuredRefusal (List Char × Parser) := do
  let (key, p) ← parseString limits p.skipWs
  match key with
  | .string key =>
    if entries.any (fun entry => entry.1 == key) then .error (.duplicateKey key)
    else
      let p := p.skipWs
      if p.get ≠ some (byte ':') then .error (.invalidSyntax p.pos) else .ok (key, p.advance 1)
  | _ => .error (.invalidSyntax p.pos)

def objectLoop : Nat → List (List Char × StructuredValue) → Parser →
    Except StructuredRefusal (StructuredValue × Parser)
  | 0, _, _ => .error (.tooManyEntries limits.maxEntries)
  | left + 1, entries, p => do
      let (key, p) ← parseKey limits entries p
      let (value, p) ← parse p
      let entries := entries ++ [(key, value)]
      let p := p.skipWs
      if p.get = some (byte ',') then objectLoop left entries (p.advance 1)
      else if p.get = some (byte '}') then do
        let p ← chargeBytes limits containerDelimiterBytes (p.advance 1)
        .ok (.object entries, p)
      else .error (.invalidSyntax p.pos)

def parseObject (p : Parser) : Except StructuredRefusal (StructuredValue × Parser) :=
  let p := (p.advance 1).skipWs
  if p.get = some (byte '}') then do
    let p ← chargeBytes limits containerDelimiterBytes (p.advance 1)
    .ok (.object [], p)
  else objectLoop limits parse limits.maxEntries [] p

end Containers

/-- The match of `parse_value` on the byte at the place. -/
def dispatch (limits : StructuredMutationLimits)
    (parse : Parser → Except StructuredRefusal (StructuredValue × Parser)) (p : Parser) :
    Except StructuredRefusal (StructuredValue × Parser) :=
  if p.get = some (byte 'n') then parseLiteral limits ['n', 'u', 'l', 'l'] .null p
  else if p.get = some (byte 't') then parseLiteral limits ['t', 'r', 'u', 'e'] (.bool true) p
  else if p.get = some (byte 'f') then parseLiteral limits ['f', 'a', 'l', 's', 'e'] (.bool false) p
  else if p.get = some (byte '"') then parseString limits p
  else if p.get = some (byte '[') then parseArray limits parse p
  else if p.get = some (byte '{') then parseObject limits parse p
  else if p.get = some (byte '-') ∨ p.atDigit then parseNumber limits p
  else .error (.invalidSyntax p.pos)

-- The first argument counts the depths that are still allowed, `max_depth + 1 - depth`: at 0 the
-- depth is greater than `max_depth` and `bump_node` refuses.
def parseValue (limits : StructuredMutationLimits) : Nat → Parser →
    Except StructuredRefusal (StructuredValue × Parser)
  | 0, _ => .error (.depthExceeded limits.maxDepth)
  | levels + 1, p => do
      let p ← bumpNode limits p
      dispatch limits (parseValue limits levels) p.skipWs

section Entry
variable {Digest : Type} (toJson : StructuredValue → Option (List UInt8))
  (ofBytes : List UInt8 → Digest)

def structuredPayload (raw : List Char) : Except StructuredRefusal (List Char) :=
  if structuredPrefix <+: raw then .ok (raw.drop structuredPrefix.length)
  else .error .missingStructuredPrefix

def parseStructuredMutation (raw : List Char) (limits : StructuredMutationLimits) :
    Except StructuredRefusal (MutationStructuredValueV1 Digest) := do
  let payload ← structuredPayload raw
  if limits.maxInputBytes < size raw then .error (.inputTooLarge limits.maxInputBytes)
  else if limits.withinPinnedV1 = false then .error .limitsExceedPinnedProfile
  else do
    let (value, p) ← parseValue limits (limits.maxDepth + 1) (.new (encode payload))
    let p := p.skipWs
    if p.rest ≠ [] then .error (.invalidSyntax p.pos)
    else
      match toJson value with
      | none => .error (.invalidSyntax 0)
      | some canonical =>
        .ok ⟨mutationStructuredValueSchemaVersion, value, ofBytes canonical⟩

end Entry

end PerlLsp.StructuredMutation
