import PerlLsp.StructuredMutation

/-! The parser of debugger values, `variables/parser.rs` of perl-dap: a cascade of patterns for
scalars, then the bracketed collections, whose elements a scanner with three depth counters finds. -/
namespace PerlLsp.DebuggerValue
open Text Utf8
open StructuredMutation (parseI64)

/-- What the regex crate and `f64` bring in: the classes `\\d` and `\\w`, and parsing floats. -/
structure Library (Number : Type) where
  isDigit : Char → Bool
  isWord : Char → Bool
  parseF64 : List Char → Option Number
  digit_ascii : ∀ scalar : Char, scalar.toNat < 128 → isDigit scalar = scalar.isDigit
  word_ascii : ∀ scalar : Char, scalar.toNat < 128 →
    isWord scalar = (scalar.isAlphanum || scalar == '_')

inductive PerlValue (Number : Type) where
  | undef
  | scalar (text : List Char)
  | number (value : Number)
  | integer (value : Int)
  | array (elements : List (PerlValue Number))
  | hash (pairs : List (List Char × PerlValue Number))
  | object (className : List Char) (value : PerlValue Number)
  | glob (name : List Char)

inductive VariableParseError where
  | maxDepthExceeded (limit : Nat)
  | unterminatedString
  deriving DecidableEq

/-- An error of the parser, or an arithmetic overflow where the build checks for it. -/
inductive Failure where
  | failed (error : VariableParseError)
  | overflow
  deriving DecidableEq

structure VariableParser where
  maxDepth : Nat

section Patterns
variable {Number : Type} (library : Library Number)

/-- `^-?\\d+$` behind the sign -/
def isDigits (text : List Char) : Bool := text ≠ [] && text.all library.isDigit

def unsigned : List Char → List Char
  | '-' :: rest => rest
  | text => text

def integerRe (text : List Char) : Bool := isDigits library (unsigned text)

/-- `(?:[eE][+-]?\\d+)?$` -/
def isExponent : List Char → Bool
  | [] => true
  | mark :: '+' :: digits => (mark == 'e' || mark == 'E') && isDigits library digits
  | mark :: '-' :: digits => (mark == 'e' || mark == 'E') && isDigits library digits
  | mark :: digits => (mark == 'e' || mark == 'E') && isDigits library digits

/-- `^-?(?:\\d+\\.?\\d*|\\.\\d+)(?:[eE][+-]?\\d+)?$` -/
def numberRe (text : List Char) : Bool :=
  let body := unsigned text
  let whole := body.takeWhile library.isDigit
  match body.dropWhile library.isDigit with
  | '.' :: rest =>
    (whole ≠ [] || rest.takeWhile library.isDigit ≠ []) &&
      isExponent library (rest.dropWhile library.isDigit)
  | rest => whole ≠ [] && isExponent library rest

/-- `(?:[^q\\\\]|\\\\.)*q` for a quote `q`, wherever it ends. -/
def closesQuote (quote : Char) : List Char → Bool
  | [] => false
  | ['\\'] => false
  | '\\' :: escaped :: rest => escaped ≠ '\n' && closesQuote quote rest
  | scalar :: rest => scalar == quote || closesQuote quote rest

def quotedStringRe : List Char → Bool
  | '\'' :: rest => closesQuote '\'' rest
  | '"' :: rest => closesQuote '"' rest
  | _ => false

def isHexDigit (scalar : Char) : Bool :=
  scalar.isDigit || ('a' ≤ scalar && scalar ≤ 'f') || ('A' ≤ scalar && scalar ≤ 'F')

/-- `^TAG\\(0x[0-9a-fA-F]+\\)$` -/
def isAddress (tag text : List Char) : Bool :=
  match (tag ++ ['(', '0', 'x']).isPrefixOf text with
  | false => false
  | true =>
    let address := text.drop (tag.length + 3)
    address.takeWhile isHexDigit ≠ [] && address.dropWhile isHexDigit == [')']

def isPath (scalar : Char) : Bool := library.isWord scalar || scalar == ':'

def arrayTag : List Char := ['A', 'R', 'R', 'A', 'Y']
def hashTag : List Char := ['H', 'A', 'S', 'H']
def codeTag : List Char := ['C', 'O', 'D', 'E']
def scalarTag : List Char := ['S', 'C', 'A', 'L', 'A', 'R']
def globTag : List Char := ['G', 'L', 'O', 'B']

/-- `^(?P<class>[\\w:]+)=(?P<type>ARRAY|HASH|SCALAR|GLOB)\\(0x[0-9a-fA-F]+\\)$` -/
def objectRe (text : List Char) : Option (List Char × List Char) :=
  let className := text.takeWhile (isPath library)
  match text.dropWhile (isPath library) with
  | '=' :: rest =>
    if className = [] then none
    else ([arrayTag, hashTag, scalarTag, globTag].find? (isAddress · rest)).map (className, ·)
  | _ => none

/-- `^\\*(?P<name>[\\w:]+)$` -/
def globRe : List Char → Option (List Char)
  | '*' :: name => if name ≠ [] ∧ name.all (isPath library) then some name else none
  | _ => none

end Patterns

section Strings

def unescapeString : List Char → List Char
  | [] => []
  | ['\\'] => ['\\']
  | '\\' :: escaped :: rest =>
    (match escaped with
      | 'n' => ['\n']
      | 'r' => ['\r']
      | 't' => ['\t']
      | '\\' => ['\\']
      | '"' => ['"']
      | '\'' => ['\'']
      | other => ['\\', other]) ++ unescapeString rest
  | scalar :: rest => scalar :: unescapeString rest

/-- Both ends are the same quote. -/
def isQuoted (text : List Char) : Prop :=
  text.head? = some '"' ∧ text.getLast? = some '"' ∨
    text.head? = some '\'' ∧ text.getLast? = some '\''

instance (text : List Char) : Decidable (isQuoted text) := inferInstanceAs (Decidable (_ ∨ _))

variable (text : List Char)

/-- `&text[1..text.len() - 1]`, both ends being ASCII -/
def innerText : List Char := (text.drop 1).dropLast

def unquoteString : Except Failure (List Char) :=
  if size text < 2 then .error (.failed .unterminatedString)
  else if isQuoted text then .ok (unescapeString (innerText text))
  else .ok text

def unquoteKey : List Char :=
  if 2 ≤ size text ∧ isQuoted text then unescapeString (innerText text) else text

end Strings

section Scanners

/-- The string and escape flags both scanners keep, one over scalars and one over bytes. -/
structure Quoting (Symbol : Type) where
  inString : Bool
  stringChar : Symbol
  escapeNext : Bool

/-- What the flags do with a symbol, or nothing outside of strings and escapes. -/
def Quoting.next {Symbol : Type} [DecidableEq Symbol] (backslash double single : Symbol)
    (quoting : Quoting Symbol) (symbol : Symbol) : Option (Quoting Symbol) :=
  if quoting.escapeNext then some { quoting with escapeNext := false }
  else if symbol = backslash then some { quoting with escapeNext := true }
  else if quoting.inString then
    some { quoting with inString := symbol ≠ quoting.stringChar }
  else if symbol = double ∨ symbol = single then
    some { inString := true, stringChar := symbol, escapeNext := false }
  else none

def u32Max : Nat := 2 ^ 32 - 1

/-- `depth += 1` on a `u32`: it panics or wraps, as the build has overflow checks or not. -/
def increment (checks : Bool) (depth : Nat) : Option Nat :=
  if depth < u32Max then some (depth + 1) else if checks then none else some 0

structure Split where
  elements : List (List Char)
  current : List Char
  parenDepth : Nat
  bracketDepth : Nat
  braceDepth : Nat
  quoting : Quoting Char

namespace Split

def start : Split := ⟨[], [], 0, 0, 0, ⟨false, ' ', false⟩⟩

def push (split : Split) (scalar : Char) : Split :=
  { split with current := split.current ++ [scalar] }

def flush (split : Split) : Split :=
  { split with
    elements := if trim split.current = [] then split.elements
      else split.elements ++ [trim split.current]
    current := [] }

def step (checks : Bool) (split : Split) (scalar : Char) : Option Split :=
  match split.quoting.next '\\' '"' '\'' scalar with
  | some quoting => some { split.push scalar with quoting := quoting }
  | none =>
    match scalar with
    | '(' => (increment checks split.parenDepth).map fun depth =>
      { split.push scalar with parenDepth := depth }
    | ')' => some { split.push scalar with parenDepth := split.parenDepth - 1 }
    | '[' => (increment checks split.bracketDepth).map fun depth =>
      { split.push scalar with bracketDepth := depth }
    | ']' => some { split.push scalar with bracketDepth := split.bracketDepth - 1 }
    | '\x7b' => (increment checks split.braceDepth).map fun depth =>
      { split.push scalar with braceDepth := depth }
    | '\x7d' => some { split.push scalar with braceDepth := split.braceDepth - 1 }
    | ',' =>
      if split.parenDepth = 0 ∧ split.bracketDepth = 0 ∧ split.braceDepth = 0 then
        some split.flush
      else some (split.push scalar)
    | _ => some (split.push scalar)

end Split

def splitElements (checks : Bool) (text : List Char) : Except Failure (List (List Char)) :=
  match text.foldlM (Split.step checks) Split.start with
  | none => .error .overflow
  | some split => .ok split.flush.elements

/-- The byte of the first `=>` outside of strings. -/
def fatComma (idx : Nat) (quoting : Quoting UInt8) : List UInt8 → Option Nat
  | [] => none
  | b :: rest =>
    match quoting.next 0x5C 0x22 0x27 b with
    | some quoting => fatComma (idx + 1) quoting rest
    | none => if b = 0x3D ∧ rest.head? = some 0x3E then some idx else fatComma (idx + 1) quoting rest

/-- The place is one of an ASCII byte, so that the slices are there. -/
def splitFatComma (element : List Char) : Option (List Char × List Char) := do
  let idx ← fatComma 0 ⟨false, 0x20, false⟩ (encode element)
  let key ← slice element 0 idx
  let value ← slice element (idx + 2) (size element)
  some (key, value)

end Scanners

section Parser
variable {Number : Type} (library : Library Number) (checks : Bool) (parser : VariableParser)

/-- The patterns of `parse_value`, in their order. -/
def parsePatterns (text : List Char) : Option (Except Failure (PerlValue Number)) :=
  let integer := if integerRe library text then parseI64 text else none
  let number := if numberRe library text then library.parseF64 text else none
  if text = ['u', 'n', 'd', 'e', 'f'] then some (.ok .undef)
  else if let some value := integer then some (.ok (.integer value))
  else if let some value := number then some (.ok (.number value))
  else if quotedStringRe text then some ((unquoteString text).map .scalar)
  else if isAddress arrayTag text || isAddress hashTag text || isAddress codeTag text then
    some (.ok (.scalar text))
  else if let some (className, tag) := objectRe library text then
    some (.ok (.object className
      (if tag = arrayTag then .array [] else if tag = hashTag then .hash [] else .scalar [])))
  else (globRe library text).map fun name => .ok (.glob name)

variable (parse : List Char → Except Failure (PerlValue Number))

def parseArrayLiteral (text : List Char) : Except Failure (PerlValue Number) :=
  if trim (innerText text) = [] then .ok (.array [])
  else do
    let elements ← splitElements checks (innerText text)
    let parsed ← elements.mapM parse
    .ok (.array parsed)

def parsePair (element : List Char) : Except Failure (List Char × PerlValue Number) :=
  match splitFatComma element with
  | some (key, value) => do
      let value ← parse (trim value)
      .ok (unquoteKey (trim key), value)
  | none => .ok (unquoteKey (trim element), .undef)

def parseHashLiteral (text : List Char) : Except Failure (PerlValue Number) :=
  if trim (innerText text) = [] then .ok (.hash [])
  else do
    let elements ← splitElements checks (innerText text)
    let pairs ← elements.mapM (parsePair parse)
    .ok (.hash pairs)

def isBetween (opening closing : Char) (text : List Char) : Prop :=
  text.head? = some opening ∧ text.getLast? = some closing

instance (opening closing : Char) (text : List Char) : Decidable (isBetween opening closing text) :=
  inferInstanceAs (Decidable (_ ∧ _))

def parseValue (text : List Char) (depth : Nat) : Except Failure (PerlValue Number) :=
  if parser.maxDepth < depth then .error (.failed (.maxDepthExceeded parser.maxDepth))
  else
    let parse := fun element => parseValue element (depth + 1)
    match parsePatterns library (trim text) with
    | some result => result
    | none =>
      if isBetween '(' ')' (trim text) then parseArrayLiteral checks parse (trim text)
      else if isBetween '[' ']' (trim text) then parseArrayLiteral checks parse (trim text)
      else if isBetween '\x7b' '\x7d' (trim text) then parseHashLiteral checks parse (trim text)
      else .ok (.scalar (trim text))
termination_by parser.maxDepth + 1 - depth

end Parser

end PerlLsp.DebuggerValue
