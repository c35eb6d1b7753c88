import PerlLsp.Utf8

/-! `decode` of perl-parser-core/src/command_line: what the arguments of a Perl invocation
say, with the place of each part. A cluster is what is left of it and the byte offset at
which that starts. -/
namespace PerlLsp.CommandLine
open Utf8

abbrev Text := List Char

/-- The bytes from `start` to `stop` of one argument. -/
structure ArgvSpan where
  argumentIndex : Nat
  start : Nat
  stop : Nat
deriving DecidableEq, Repr

inductive ArgvLead
  | interpreter
  | switchesOnly
deriving DecidableEq, Repr

inductive SourceSwitch
  | e
  | bigE
deriving DecidableEq, Repr

structure SourceFragment where
  switch : SourceSwitch
  text : Text
  span : ArgvSpan
  switchSpan : ArgvSpan
deriving DecidableEq, Repr

inductive ModuleForm
  | use
  | useSuppressingDefaultImport
deriving DecidableEq, Repr

structure ModuleSpec where
  negated : Bool
  moduleText : Text
  moduleSpan : ArgvSpan
  importArguments : Option Text
  importArgumentsSpan : Option ArgvSpan
  moduleIsPlainName : Bool
deriving DecidableEq, Repr

inductive RecordSeparatorDigits
  | octal (digits : Text)
  | hex (digits : Text)
deriving DecidableEq, Repr

inductive ContextFactKind
  | readLoop
  | printLoop
  | autoSplit
  | splitPattern (pattern : Text)
  | lineEnding (octalDigits : Option Text)
  | recordSeparator (digits : Option RecordSeparatorDigits)
  | slurpMode
  | includeDirectory (directory : Text)
  | moduleImport (form : ModuleForm) (spec : ModuleSpec)
deriving DecidableEq, Repr

structure ContextFact where
  kind : ContextFactKind
  span : ArgvSpan
  switchSpan : ArgvSpan
deriving DecidableEq, Repr

inductive NeutralSwitch
  | unicodeFlags
  | compileOnly
  | debugger
  | noSiteCustomize
  | inPlaceEdit
  | programSwitches
  | searchPath
  | taintWarnings
  | taintChecks
  | dumpCore
  | allowUnsafe
  | configuration
  | warnings
  | allWarnings
  | noWarnings
deriving DecidableEq, Repr

structure NeutralSwitchUse where
  switch : NeutralSwitch
  value : Option Text
  span : ArgvSpan
  switchSpan : ArgvSpan
deriving DecidableEq, Repr

inductive TerminatingActionKind
  | version
  | usage
deriving DecidableEq, Repr

structure TerminatingAction where
  kind : TerminatingActionKind
  span : ArgvSpan
deriving DecidableEq, Repr

inductive UnsupportedSwitchKind
  | scriptTextOffset
  | debuggingFlags
deriving DecidableEq, Repr

structure UnsupportedSwitch where
  kind : UnsupportedSwitchKind
  spelling : Text
  span : ArgvSpan
deriving DecidableEq, Repr

inductive AmbiguityKind
  | moduleExpressionIsNotAModuleName
  | moduleNameDependsOnSourceContext
  | emptySplitPattern
deriving DecidableEq, Repr

structure Ambiguity where
  kind : AmbiguityKind
  span : ArgvSpan
deriving DecidableEq, Repr

inductive ProgramSource
  | commandLineFragments
  | scriptFile (path : Text) (span : ArgvSpan)
  | standardInput (span : ArgvSpan)
  | unspecified
  | notReached
deriving DecidableEq, Repr

structure ProgramArgument where
  text : Text
  span : ArgvSpan
deriving DecidableEq, Repr

structure PerlInvocation where
  interpreter : Option ArgvSpan
  sourceFragments : List SourceFragment
  contextFacts : List ContextFact
  neutralSwitches : List NeutralSwitchUse
  unsupportedSwitches : List UnsupportedSwitch
  ambiguities : List Ambiguity
  terminatingAction : Option TerminatingAction
  uninterpretedArguments : List ProgramArgument
  terminator : Option ArgvSpan
  program : ProgramSource
  programArguments : List ProgramArgument
deriving DecidableEq, Repr

inductive InvocationDecodeError
  | missingInterpreter
  | unrecognizedSwitch (switch : Char) (span : ArgvSpan)
  | unrecognizedLongSwitch (spelling : Text) (span : ArgvSpan)
  | missingValue (switch : Char) (span : ArgvSpan)
  | emptyModuleName (switch : Char) (span : ArgvSpan)
  | singleColonInModuleName (switch : Char) (span : ArgvSpan)
  | unexpectedModuleSuffix (character : Char) (span : ArgvSpan)
  | unknownUnicodeOption (character : Char) (span : ArgvSpan)
  | malformedUnicodeOptionNumber (value : Text) (span : ArgvSpan)
  | unsupportedUnicodeOptionValue (value : Text) (span : ArgvSpan)
deriving DecidableEq, Repr

def wholeArgumentSpan (index : Nat) (argument : Text) : ArgvSpan := ⟨index, 0, size argument⟩

section Clusters

structure Cluster where
  index : Nat
  offset : Nat
  remaining : Text
deriving DecidableEq, Repr

def Cluster.new (text : Text) (index : Nat) : Cluster :=
  let start := min 1 (size text)
  ⟨index, start, ((splitAtByte text start).map Prod.snd).getD []⟩

variable (cluster : Cluster)

def Cluster.nextLetter : Option (Char × ArgvSpan × Cluster) :=
  match cluster.remaining with
  | [] => none
  | letter :: rest =>
    some (letter, ⟨cluster.index, cluster.offset, cluster.offset + letter.utf8Size⟩,
      ⟨cluster.index, cluster.offset + letter.utf8Size, rest⟩)

def Cluster.rest : Text × ArgvSpan :=
  (cluster.remaining, ⟨cluster.index, cluster.offset, cluster.offset + size cluster.remaining⟩)

def Cluster.takePrefixedValue (measure : Text → Nat) : Option (Text × ArgvSpan) × Cluster :=
  let taken := min (measure cluster.remaining) (size cluster.remaining)
  match splitAtByte cluster.remaining taken with
  | none => (none, cluster)
  | some (value, rest) =>
    if value.isEmpty then (none, cluster)
    else
      (some (value, ⟨cluster.index, cluster.offset, cluster.offset + taken⟩),
        ⟨cluster.index, cluster.offset + taken, rest⟩)

def Cluster.takeRun (accept : Char → Bool) (limit : Nat) : Text × ArgvSpan × Cluster :=
  let value := (cluster.remaining.take limit).takeWhile accept
  (value, ⟨cluster.index, cluster.offset, cluster.offset + size value⟩,
    ⟨cluster.index, cluster.offset + size value, cluster.remaining.drop value.length⟩)

end Clusters

section ModuleNames

inductive ModuleNameClass
  | plainName
  | notAName
  | dependsOnSourceContext
deriving DecidableEq, Repr

inductive NameCharacters
  | ascii
  | asciiOrWide
deriving DecidableEq, Repr

def isAscii (character : Char) : Bool := character.toNat < 128

def NameCharacters.admitsWide (alphabet : NameCharacters) (character : Char) : Bool :=
  alphabet == .asciiOrWide && !isAscii character

def isNameCharacter (character : Char) (alphabet : NameCharacters) : Bool :=
  character.isAlphanum || character == '_' || alphabet.admitsWide character

def splitLeadingComponent (text : Text) (alphabet : NameCharacters) : Option (Text × Text) :=
  let component := text.takeWhile fun character => isNameCharacter character alphabet
  if component.isEmpty then none else some (component, text.drop component.length)

theorem split_leading_shorter {text component remainder : Text} {alphabet : NameCharacters}
    (found : splitLeadingComponent text alphabet = some (component, remainder)) :
    remainder.length ≤ text.length := by
  unfold splitLeadingComponent at found
  dsimp only at found
  split at found
  · cases found
  · obtain ⟨-, rfl⟩ := Prod.mk.inj (Option.some.inj found)
    simp

def splitSeparator (rest : Text) : Option (Bool × Text) :=
  match rest with
  | ':' :: ':' :: after => some (false, after)
  | '\'' :: after => some (true, after)
  | _ => none

theorem split_separator_shorter {rest after : Text} {legacy : Bool}
    (found : splitSeparator rest = some (legacy, after)) : after.length < rest.length := by
  unfold splitSeparator at found
  split at found
  · obtain ⟨-, rfl⟩ := Prod.mk.inj (Option.some.inj found)
    simp only [List.length_cons]
    omega
  · obtain ⟨-, rfl⟩ := Prod.mk.inj (Option.some.inj found)
    simp
  · cases found

/-- The loop of `scan_name` over the components behind the first one. -/
def scanComponents (alphabet : NameCharacters) (rest : Text) : Except Text Unit :=
  if rest.isEmpty then .ok ()
  else
    match separated : splitSeparator rest with
    | none => .error rest
    | some (separatorIsLegacy, after) =>
      match found : splitLeadingComponent after alphabet with
      | some (component, remainder) =>
        let leads := match component.head? with
          | some c => c == '_' || alphabet.admitsWide c ||
              (if separatorIsLegacy then c.isAlpha else c.isAlphanum)
          | none => false
        if leads then scanComponents alphabet remainder else .error component
      | none => if separatorIsLegacy then .error after else scanComponents alphabet after
termination_by rest.length
decreasing_by
  · have shorter := split_separator_shorter separated
    have inside := split_leading_shorter found
    omega
  · exact split_separator_shorter separated

def scanName (text : Text) (alphabet : NameCharacters) : Except Text Unit :=
  match splitLeadingComponent text alphabet with
  | none => .error text
  | some (first, rest) =>
    let leads := match first.head? with
      | some c => c.isAlpha || c == '_'
      | none => false
    if leads then scanComponents alphabet rest else .error first

def classifyModuleName (text : Text) : ModuleNameClass :=
  match scanName text .ascii with
  | .ok () => .plainName
  | .error rest =>
    match rest.head? with
    | some character =>
      if isAscii character then .notAName
      else
        match scanName text .asciiOrWide with
        | .ok () => .dependsOnSourceContext
        | .error _ => .notAName
    | none => .notAName

/-- The number of characters of the name; `none` for a `:` that is no part of `::`. -/
def scanModuleOptionName : Text → Option Nat
  | ':' :: ':' :: rest => (scanModuleOptionName rest).map (· + 2)
  | ':' :: _ => none
  | character :: rest =>
    if character.isAlphanum || character == '_' then (scanModuleOptionName rest).map (· + 1)
    else some 0
  | [] => some 0

/-- `text.strip_prefix('-')`, with the place where the body starts. -/
def stripNegation (text : Text) (start : Nat) : Bool × Text × Nat :=
  match text with
  | '-' :: body => (true, body, start + 1)
  | _ => (false, text, start)

def decodeModuleSpec (text : Text) (span : ArgvSpan) (switch : Char) :
    Except InvocationDecodeError ModuleSpec :=
  let (negated, body, bodyStart) := stripNegation text span.start
  match scanModuleOptionName body with
  | none => .error (.singleColonInModuleName switch span)
  | some 0 => .error (.emptyModuleName switch span)
  | some nameLength =>
    let scanned := body.take nameLength
    let trailing := body.drop nameLength
    let named (moduleText : Text) (importArguments : Option Text) : ModuleSpec :=
      { negated, moduleText
        moduleSpan := ⟨span.argumentIndex, bodyStart, bodyStart + size moduleText⟩
        importArguments
        importArgumentsSpan := importArguments.map fun arguments =>
          let start := bodyStart + size moduleText + 1
          ⟨span.argumentIndex, start, start + size arguments⟩
        moduleIsPlainName := classifyModuleName moduleText == .plainName }
    match trailing with
    | '=' :: arguments => .ok (named scanned (some arguments))
    | [] => .ok (named body none)
    | character :: _ =>
      if switch = 'm' then
        let start := bodyStart + nameLength
        .error (.unexpectedModuleSuffix character
          ⟨span.argumentIndex, start, start + character.utf8Size⟩)
      else .ok (named body none)

end ModuleNames

section UnicodeOptions

def unicodeOptionLetters : Text := ['a', 'i', 'o', 'A', 'D', 'E', 'I', 'L', 'O', 'S']

def unicodeOptionValueMax : Nat := 511

/-- The loops over `char_indices`: the first character that is not accepted, with its offset. -/
def firstUnknown (accept : Char → Bool) : Text → Nat → Option (Char × Nat)
  | [], _ => none
  | character :: rest, offset =>
    if accept character then firstUnknown accept rest (offset + character.utf8Size)
    else some (character, offset)

def unknownUnicodeOption (span : ArgvSpan) (character : Char) (offset : Nat) : InvocationDecodeError :=
  let start := span.start + offset
  .unknownUnicodeOption character ⟨span.argumentIndex, start, start + character.utf8Size⟩

def checkUnicodeOptionNumber (value : Text) (span : ArgvSpan) : Except InvocationDecodeError Unit :=
  match firstUnknown Char.isDigit value 0 with
  | some (character, offset) => .error (unknownUnicodeOption span character offset)
  | none =>
    if 1 < size value ∧ value.head? = some '0' then
      .error (.malformedUnicodeOptionNumber value span)
    else
      -- `value.parse::<u32>()`
      let number := Nat.ofDigitChars 10 value 0
      if 2 ^ 32 ≤ number then .error (.malformedUnicodeOptionNumber value span)
      else if unicodeOptionValueMax < number then
        .error (.unsupportedUnicodeOptionValue value span)
      else .ok ()

def checkUnicodeOptions (value : Text) (span : ArgvSpan) : Except InvocationDecodeError Unit :=
  if (value.head?.any Char.isDigit) = true then checkUnicodeOptionNumber value span
  else
    match firstUnknown (fun character => unicodeOptionLetters.contains character) value 0 with
    | some (character, offset) => .error (unknownUnicodeOption span character offset)
    | none => .ok ()

end UnicodeOptions

section Switches
variable (invocation : PerlInvocation)

def pushFact (kind : ContextFactKind) (span switchSpan : ArgvSpan) : PerlInvocation :=
  { invocation with contextFacts := invocation.contextFacts ++ [⟨kind, span, switchSpan⟩] }

def pushNeutral (switch : NeutralSwitch)
    (value : Option (Text × ArgvSpan)) (switchSpan : ArgvSpan) : PerlInvocation :=
  let use : NeutralSwitchUse := match value with
    | some (text, span) => ⟨switch, some text, span, switchSpan⟩
    | none => ⟨switch, none, switchSpan, switchSpan⟩
  { invocation with neutralSwitches := invocation.neutralSwitches ++ [use] }

def pushAmbiguity (kind : AmbiguityKind) (span : ArgvSpan) : PerlInvocation :=
  { invocation with ambiguities := invocation.ambiguities ++ [⟨kind, span⟩] }

def isOctalDigit (character : Char) : Bool := '0' ≤ character && character ≤ '7'

def isHexDigit (character : Char) : Bool :=
  character.isDigit || ('a' ≤ character && character ≤ 'f') || ('A' ≤ character && character ≤ 'F')

def octalSeparatorDigitLimit : Nat := 3

/-- The marker is followed by hexadecimal digits all the way to the end of the cluster. -/
def hexadecimal (remaining : Text) : Bool :=
  match remaining with
  | 'x' :: after => !after.isEmpty && after.all isHexDigit
  | _ => false

def takeRecordSeparatorDigits (cluster : Cluster) (letterSpan : ArgvSpan) :
    Option RecordSeparatorDigits × ArgvSpan × Cluster :=
  if hexadecimal cluster.remaining then
    let cluster := match cluster.nextLetter with
      | some (_, _, cluster) => cluster
      | none => cluster
    let (digits, span, cluster) := cluster.takeRun isHexDigit (2 ^ 64 - 1)
    (some (.hex digits), span, cluster)
  else
    let (digits, span, cluster) := cluster.takeRun isOctalDigit octalSeparatorDigitLimit
    if digits.isEmpty then (none, letterSpan, cluster) else (some (.octal digits), span, cluster)

def neutralSwitch (letter : Char) : Option NeutralSwitch :=
  match letter with
  | 'c' => some .compileOnly
  | 'f' => some .noSiteCustomize
  | 's' => some .programSwitches
  | 'S' => some .searchPath
  | 't' => some .taintWarnings
  | 'T' => some .taintChecks
  | 'u' => some .dumpCore
  | 'U' => some .allowUnsafe
  | 'w' => some .warnings
  | 'W' => some .allWarnings
  | 'X' => some .noWarnings
  | _ => none

/-- How a letter leaves the loop over a cluster's letters: it goes on, or ends with the index of the
next argument. -/
inductive ClusterFlow
  | more (cluster : Cluster) (invocation : PerlInvocation)
  | done (nextIndex : Nat) (invocation : PerlInvocation)

/-- The arms of `e` and `E`. -/
def decodeSource (argv : List Text) (switch : SourceSwitch) (letter : Char) (letterSpan : ArgvSpan)
    (cluster : Cluster) (invocation : PerlInvocation) : Except InvocationDecodeError ClusterFlow :=
  let nextIndex := cluster.index + 1
  let (attached, attachedSpan) := cluster.rest
  let push (text : Text) (span : ArgvSpan) : PerlInvocation :=
    { invocation with
      sourceFragments := invocation.sourceFragments ++ [⟨switch, text, span, letterSpan⟩] }
  if attached.isEmpty then
    match argv[nextIndex]? with
    | none => .error (.missingValue letter letterSpan)
    | some separate =>
      .ok (.done (nextIndex + 1) (push separate (wholeArgumentSpan nextIndex separate)))
  else .ok (.done nextIndex (push attached attachedSpan))

def decodeIncludeDirectory (argv : List Text) (letter : Char) (letterSpan : ArgvSpan)
    (cluster : Cluster) (invocation : PerlInvocation) : Except InvocationDecodeError ClusterFlow :=
  let nextIndex := cluster.index + 1
  let (attached, attachedSpan) := cluster.rest
  if attached.isEmpty then
    match argv[nextIndex]?.filter fun value => !value.isEmpty with
    | none => .error (.missingValue letter letterSpan)
    | some separate =>
      .ok (.done (nextIndex + 1) (pushFact invocation (.includeDirectory separate)
        (wholeArgumentSpan nextIndex separate) letterSpan))
  else
    .ok (.done nextIndex
      (pushFact invocation (.includeDirectory attached) attachedSpan letterSpan))

/-- The arms of `M` and `m`. -/
def decodeModuleImport (form : ModuleForm) (letter : Char) (letterSpan : ArgvSpan)
    (cluster : Cluster) (invocation : PerlInvocation) : Except InvocationDecodeError ClusterFlow :=
  let (attached, attachedSpan) := cluster.rest
  if attached.isEmpty then .error (.missingValue letter letterSpan)
  else
    match decodeModuleSpec attached attachedSpan letter with
    | .error refused => .error refused
    | .ok spec =>
      let invocation := match classifyModuleName spec.moduleText with
        | .plainName => invocation
        | .notAName =>
          pushAmbiguity invocation .moduleExpressionIsNotAModuleName spec.moduleSpan
        | .dependsOnSourceContext =>
          pushAmbiguity invocation .moduleNameDependsOnSourceContext spec.moduleSpan
      .ok (.done (cluster.index + 1)
        (pushFact invocation (.moduleImport form spec) attachedSpan letterSpan))

variable (letterSpan : ArgvSpan)
variable (cluster : Cluster)
variable (invocation : PerlInvocation)

def decodeSplitPattern : Except InvocationDecodeError ClusterFlow :=
  let (pattern, span) := cluster.rest
  let invocation :=
    if pattern.isEmpty then pushAmbiguity invocation .emptySplitPattern letterSpan else invocation
  .ok (.done (cluster.index + 1) (pushFact invocation (.splitPattern pattern) span letterSpan))

def decodeLineEnding : Except InvocationDecodeError ClusterFlow :=
  let limit := if cluster.remaining.head? = some '0' then 4 else 3
  let (digits, digitsSpan, cluster) := cluster.takeRun isOctalDigit limit
  let span := if digits.isEmpty then letterSpan else digitsSpan
  let octalDigits := if digits.isEmpty then none else some digits
  .ok (.more cluster (pushFact invocation (.lineEnding octalDigits) span letterSpan))

def decodeRecordSeparator : Except InvocationDecodeError ClusterFlow :=
  let (digits, span, cluster) := takeRecordSeparatorDigits cluster letterSpan
  .ok (.more cluster (pushFact invocation (.recordSeparator digits) span letterSpan))

/-- The arms of `x` and `D`. -/
def decodeUnsupported (kind : UnsupportedSwitchKind) (letter : Char) (letterSpan : ArgvSpan)
    (cluster : Cluster) (invocation : PerlInvocation) : Except InvocationDecodeError ClusterFlow :=
  let (value, _) := cluster.rest
  let span : ArgvSpan := ⟨cluster.index, letterSpan.start, letterSpan.stop + size value⟩
  .ok (.done (cluster.index + 1) { invocation with
    unsupportedSwitches := invocation.unsupportedSwitches ++ [⟨kind, letter :: value, span⟩] })

/-- The arms of `C` and `i`. -/
def decodeSwallowing (switch : NeutralSwitch) (letterSpan : ArgvSpan) (cluster : Cluster)
    (invocation : PerlInvocation) : Except InvocationDecodeError ClusterFlow :=
  let (value, valueSpan) := cluster.rest
  let checked := if switch = .unicodeFlags then checkUnicodeOptions value valueSpan else .ok ()
  match checked with
  | .error refused => .error refused
  | .ok () =>
    let given := if value.isEmpty then none else some (value, valueSpan)
    .ok (.done (cluster.index + 1) (pushNeutral invocation switch given letterSpan))

/-- The arms of `V` and `d`. -/
def decodePrefixed (switch : NeutralSwitch) (measure : Text → Nat) (letterSpan : ArgvSpan)
    (cluster : Cluster) (invocation : PerlInvocation) : Except InvocationDecodeError ClusterFlow :=
  let (value, cluster) := cluster.takePrefixedValue measure
  .ok (.more cluster (pushNeutral invocation switch value letterSpan))

def configurationLength (remaining : Text) : Nat :=
  if remaining.head? = some ':' then size remaining else 0

def debuggerLength (remaining : Text) : Nat :=
  let flag := if remaining.head? = some 't' then 1 else 0
  let rest := ((splitAtByte remaining flag).map Prod.snd).getD []
  if rest.head? = some ':' then size remaining else flag

/-- The arms of `v` and `h`. -/
def decodeTerminating (kind : TerminatingActionKind) (letterSpan : ArgvSpan) (cluster : Cluster)
    (invocation : PerlInvocation) : Except InvocationDecodeError ClusterFlow :=
  let (tail, tailSpan) := cluster.rest
  .ok (.done (cluster.index + 1) { invocation with
    terminatingAction := some ⟨kind, letterSpan⟩
    uninterpretedArguments := invocation.uninterpretedArguments ++
      (if tail.isEmpty then [] else [⟨tail, tailSpan⟩]) })

/-- One turn of the loop of `decode_cluster`. -/
def clusterStep (argv : List Text) (cluster : Cluster) (invocation : PerlInvocation) :
    Except InvocationDecodeError ClusterFlow :=
  match cluster.nextLetter with
  | none => .ok (.done (cluster.index + 1) invocation)
  | some (letter, letterSpan, cluster) =>
    match letter with
    | 'e' => decodeSource argv .e letter letterSpan cluster invocation
    | 'E' => decodeSource argv .bigE letter letterSpan cluster invocation
    | 'I' => decodeIncludeDirectory argv letter letterSpan cluster invocation
    | 'M' => decodeModuleImport .use letter letterSpan cluster invocation
    | 'm' => decodeModuleImport .useSuppressingDefaultImport letter letterSpan cluster invocation
    | 'F' => decodeSplitPattern letterSpan cluster invocation
    | 'l' => decodeLineEnding letterSpan cluster invocation
    | '0' => decodeRecordSeparator letterSpan cluster invocation
    | 'n' => .ok (.more cluster (pushFact invocation .readLoop letterSpan letterSpan))
    | 'p' => .ok (.more cluster (pushFact invocation .printLoop letterSpan letterSpan))
    | 'a' => .ok (.more cluster (pushFact invocation .autoSplit letterSpan letterSpan))
    | 'g' => .ok (.more cluster (pushFact invocation .slurpMode letterSpan letterSpan))
    | 'x' => decodeUnsupported .scriptTextOffset letter letterSpan cluster invocation
    | 'D' => decodeUnsupported .debuggingFlags letter letterSpan cluster invocation
    | 'C' => decodeSwallowing .unicodeFlags letterSpan cluster invocation
    | 'i' => decodeSwallowing .inPlaceEdit letterSpan cluster invocation
    | 'V' => decodePrefixed .configuration configurationLength letterSpan cluster invocation
    | 'd' => decodePrefixed .debugger debuggerLength letterSpan cluster invocation
    | 'v' => decodeTerminating .version letterSpan cluster invocation
    | 'h' => decodeTerminating .usage letterSpan cluster invocation
    | _ =>
      match neutralSwitch letter with
      | none => .error (.unrecognizedSwitch letter letterSpan)
      | some switch => .ok (.more cluster (pushNeutral invocation switch none letterSpan))

end Switches

end PerlLsp.CommandLine
