import PerlLsp.CommandLine

/-! What one letter of a cluster does in `decode_cluster` of
perl-parser-core/src/command_line/decode.rs, and the loops of `decode` over letters and
arguments. Whatever the letter, a turn records one item and passes exactly the text that
the item is spelled as. -/
namespace PerlLsp.CommandLine
open Utf8

/-- What one switch letter records, in whichever of the invocation's lists. -/
inductive Item
  | fragment (fragment : SourceFragment)
  | fact (fact : ContextFact)
  | neutral (use : NeutralSwitchUse)
  | unsupported (switch : UnsupportedSwitch)

def record (invocation : PerlInvocation) : Item → PerlInvocation
  | .fragment piece =>
    { invocation with sourceFragments := invocation.sourceFragments ++ [piece] }
  | .fact given => { invocation with contextFacts := invocation.contextFacts ++ [given] }
  | .neutral use => { invocation with neutralSwitches := invocation.neutralSwitches ++ [use] }
  | .unsupported switch =>
    { invocation with unsupportedSwitches := invocation.unsupportedSwitches ++ [switch] }

def SourceSwitch.letter : SourceSwitch → Char
  | .e => 'e'
  | .bigE => 'E'

def ModuleForm.letter : ModuleForm → Char
  | .use => 'M'
  | .useSuppressingDefaultImport => 'm'

def NeutralSwitch.letter : NeutralSwitch → Char
  | .unicodeFlags => 'C'
  | .compileOnly => 'c'
  | .debugger => 'd'
  | .noSiteCustomize => 'f'
  | .inPlaceEdit => 'i'
  | .programSwitches => 's'
  | .searchPath => 'S'
  | .taintWarnings => 't'
  | .taintChecks => 'T'
  | .dumpCore => 'u'
  | .allowUnsafe => 'U'
  | .configuration => 'V'
  | .warnings => 'w'
  | .allWarnings => 'W'
  | .noWarnings => 'X'

def TerminatingActionKind.letter : TerminatingActionKind → Char
  | .version => 'v'
  | .usage => 'h'

def ModuleSpec.text (spec : ModuleSpec) : Text :=
  (if spec.negated then ['-'] else []) ++ spec.moduleText ++
    match spec.importArguments with
    | some arguments => '=' :: arguments
    | none => []

def attachedText (text : Text) (span switchSpan : ArgvSpan) : Text :=
  if span.argumentIndex = switchSpan.argumentIndex then text else []

def separateText (text : Text) (span switchSpan : ArgvSpan) : Option Text :=
  if span.argumentIndex = switchSpan.argumentIndex then none else some text

def ContextFact.spelling (fact : ContextFact) : Text :=
  match fact.kind with
  | .readLoop => ['n']
  | .printLoop => ['p']
  | .autoSplit => ['a']
  | .splitPattern pattern => 'F' :: pattern
  | .lineEnding octalDigits => 'l' :: octalDigits.getD []
  | .recordSeparator none => ['0']
  | .recordSeparator (some (.octal digits)) => '0' :: digits
  | .recordSeparator (some (.hex digits)) => '0' :: 'x' :: digits
  | .slurpMode => ['g']
  | .includeDirectory directory => 'I' :: attachedText directory fact.span fact.switchSpan
  | .moduleImport form spec => form.letter :: spec.text

def Item.spelling : Item → Text
  | .fragment piece =>
    piece.switch.letter :: attachedText piece.text piece.span piece.switchSpan
  | .fact given => given.spelling
  | .neutral use => use.switch.letter :: use.value.getD []
  | .unsupported switch => switch.spelling

def Item.separate : Item → Option Text
  | .fragment piece => separateText piece.text piece.span piece.switchSpan
  | .fact given =>
    match given.kind with
    | .includeDirectory directory => separateText directory given.span given.switchSpan
    | _ => none
  | _ => none

/-- A value that is spelled behind the switch, or is the whole of the next argument. -/
def ValueAt (index offset : Nat) (text : Text) (span : ArgvSpan) : Prop :=
  span = ⟨index, offset, offset + size text⟩ ∨ span = ⟨index + 1, 0, size text⟩

def OptionalAt (index offset : Nat) (value : Option Text) (span switchSpan : ArgvSpan) : Prop :=
  match value with
  | some text => span = ⟨index, offset, offset + size text⟩
  | none => span = switchSpan

def SpecAt (index offset : Nat) (spec : ModuleSpec) : Prop :=
  let start := offset + (if spec.negated then 1 else 0)
  spec.moduleSpan = ⟨index, start, start + size spec.moduleText⟩ ∧
    spec.importArgumentsSpan = spec.importArguments.map fun arguments =>
      ⟨index, start + size spec.moduleText + 1, start + size spec.moduleText + 1 + size arguments⟩

def FactAt (index offset : Nat) (fact : ContextFact) : Prop :=
  match fact.kind with
  | .splitPattern pattern => fact.span = ⟨index, offset, offset + size pattern⟩
  | .lineEnding octalDigits => OptionalAt index offset octalDigits fact.span fact.switchSpan
  | .recordSeparator none => fact.span = fact.switchSpan
  | .recordSeparator (some (.octal digits)) => fact.span = ⟨index, offset, offset + size digits⟩
  | .recordSeparator (some (.hex digits)) =>
    fact.span = ⟨index, offset + 1, offset + 1 + size digits⟩
  | .includeDirectory directory => ValueAt index offset directory fact.span
  | .moduleImport _ spec =>
    fact.span = ⟨index, offset, offset + size spec.text⟩ ∧ SpecAt index offset spec
  | _ => fact.span = fact.switchSpan

def Item.StandsAt (index offset : Nat) : Item → Prop
  | .fragment piece =>
    piece.switchSpan = ⟨index, offset, offset + 1⟩ ∧
      ValueAt index (offset + 1) piece.text piece.span
  | .fact given =>
    given.switchSpan = ⟨index, offset, offset + 1⟩ ∧ FactAt index (offset + 1) given
  | .neutral use =>
    use.switchSpan = ⟨index, offset, offset + 1⟩ ∧
      OptionalAt index (offset + 1) use.value use.span use.switchSpan
  | .unsupported switch =>
    switch.span = ⟨index, offset, offset + size switch.spelling⟩ ∧ switch.spelling ≠ []

def recordWith (invocation : PerlInvocation) (item : Item) (ambiguities : List Ambiguity) :
    PerlInvocation :=
  { record invocation item with ambiguities := ambiguities }

def terminate (invocation : PerlInvocation) (kind : TerminatingActionKind) (index offset : Nat)
    (tail : Text) : PerlInvocation :=
  { invocation with
    terminatingAction := some ⟨kind, ⟨index, offset, offset + 1⟩⟩
    uninterpretedArguments := invocation.uninterpretedArguments ++
      (if tail.isEmpty then [] else [⟨tail, ⟨index, offset + 1, offset + 1 + size tail⟩⟩]) }

/-- A turn records one item and passes what it is spelled as, or ends with an action, or there is no
letter left. -/
inductive Turn (argv : List Text) (cluster : Cluster) (invocation : PerlInvocation) :
    ClusterFlow → Prop
  | exhausted : cluster.remaining = [] →
      Turn argv cluster invocation (.done (cluster.index + 1) invocation)
  | more (item : Item) (ambiguities : List Ambiguity) (rest : Text) :
      item.StandsAt cluster.index cluster.offset → item.separate = none →
      cluster.remaining = item.spelling ++ rest →
      Turn argv cluster invocation
        (.more ⟨cluster.index, cluster.offset + size item.spelling, rest⟩
          (recordWith invocation item ambiguities))
  | last (item : Item) (ambiguities : List Ambiguity) :
      item.StandsAt cluster.index cluster.offset → item.separate = none →
      cluster.remaining = item.spelling →
      Turn argv cluster invocation
        (.done (cluster.index + 1) (recordWith invocation item ambiguities))
  | separate (item : Item) (value : Text) (ambiguities : List Ambiguity) :
      item.StandsAt cluster.index cluster.offset → item.separate = some value →
      argv[cluster.index + 1]? = some value → cluster.remaining = item.spelling →
      Turn argv cluster invocation
        (.done (cluster.index + 2) (recordWith invocation item ambiguities))
  | terminating (kind : TerminatingActionKind) (tail : Text) :
      cluster.remaining = kind.letter :: tail →
      Turn argv cluster invocation
        (.done (cluster.index + 1) (terminate invocation kind cluster.index cluster.offset tail))

section Arms
variable {argv : List Text} {invocation : PerlInvocation} {flow : ClusterFlow} {index offset : Nat}
  {rest : Text}

def before (index offset : Nat) (letter : Char) (rest : Text) : Cluster :=
  ⟨index, offset, letter :: rest⟩

def behind (index offset : Nat) (rest : Text) : Cluster := ⟨index, offset + 1, rest⟩

def letterAt (index offset : Nat) : ArgvSpan := ⟨index, offset, offset + 1⟩

theorem source_turn (switch : SourceSwitch) (letter : Char)
    (decoded : decodeSource argv switch letter (letterAt index offset) (behind index offset rest)
      invocation = .ok flow) : Turn argv (before index offset switch.letter rest) invocation flow := by
  unfold decodeSource at decoded
  dsimp only [Cluster.rest, behind] at decoded
  split at decoded
  next empty =>
    have none : rest = [] := by simpa using empty
    subst none
    split at decoded
    next => cases decoded
    next separate found =>
      cases decoded
      exact .separate (.fragment ⟨switch, separate, wholeArgumentSpan (index + 1) separate, _⟩)
        separate invocation.ambiguities ⟨rfl, .inr rfl⟩
        (if_neg (by simp [wholeArgumentSpan, letterAt])) found
        (by simp [Item.spelling, before, attachedText, wholeArgumentSpan, letterAt])
  next some =>
    cases decoded
    exact .last (.fragment ⟨switch, rest, ⟨index, offset + 1, offset + 1 + size rest⟩, _⟩)
      invocation.ambiguities ⟨rfl, .inl rfl⟩ (if_pos rfl)
      (by simp [Item.spelling, before, attachedText, letterAt])

theorem include_turn
    (decoded : decodeIncludeDirectory argv 'I' (letterAt index offset) (behind index offset rest)
      invocation = .ok flow) : Turn argv (before index offset 'I' rest) invocation flow := by
  unfold decodeIncludeDirectory at decoded
  dsimp only [Cluster.rest, behind] at decoded
  split at decoded
  next empty =>
    have none : rest = [] := by simpa using empty
    subst none
    split at decoded
    next => cases decoded
    next separate found =>
      cases decoded
      obtain ⟨found, -⟩ := Option.filter_eq_some_iff.mp found
      exact .separate (.fact ⟨.includeDirectory separate, wholeArgumentSpan (index + 1) separate, _⟩)
        separate invocation.ambiguities ⟨rfl, .inr rfl⟩
        (if_neg (by simp [wholeArgumentSpan, letterAt])) found
        (by simp [Item.spelling, ContextFact.spelling, before, attachedText, wholeArgumentSpan, letterAt])
  next some =>
    cases decoded
    exact .last (.fact ⟨.includeDirectory rest, ⟨index, offset + 1, offset + 1 + size rest⟩, _⟩)
      invocation.ambiguities ⟨rfl, .inl rfl⟩ (if_pos rfl)
      (by simp [Item.spelling, ContextFact.spelling, before, attachedText, letterAt])

theorem split_pattern_turn
    (decoded : decodeSplitPattern (letterAt index offset) (behind index offset rest) invocation =
      .ok flow) : Turn argv (before index offset 'F' rest) invocation flow := by
  unfold decodeSplitPattern at decoded
  dsimp only [Cluster.rest, behind] at decoded
  cases decoded
  have turn (ambiguities : List Ambiguity) : Turn argv (before index offset 'F' rest) invocation
      (.done (index + 1) (recordWith invocation
        (.fact ⟨.splitPattern rest, ⟨index, offset + 1, offset + 1 + size rest⟩,
          letterAt index offset⟩) ambiguities)) :=
    .last _ ambiguities ⟨rfl, rfl⟩ rfl rfl
  split
  · exact turn _
  · exact turn invocation.ambiguities

theorem more_turn {cluster next : Cluster} {after : PerlInvocation} (item : Item)
    (stands : item.StandsAt cluster.index cluster.offset) (attached : item.separate = none)
    (spelled : cluster.remaining = item.spelling ++ next.remaining)
    (reached : next.index = cluster.index ∧ next.offset = cluster.offset + size item.spelling)
    (recorded : after = record invocation item) : Turn argv cluster invocation (.more next after) := by
  have turn := @Turn.more argv cluster invocation item invocation.ambiguities next.remaining stands
    attached spelled
  rw [← reached.1, ← reached.2] at turn
  have same : recordWith invocation item invocation.ambiguities = after := by
    rw [recorded]
    cases item <;> rfl
  rwa [same] at turn

theorem fact_turn {letter : Char} {kind : ContextFactKind}
    (spelled : ∀ span switchSpan, (ContextFact.mk kind span switchSpan).spelling = [letter])
    (placed : ∀ span, FactAt index (offset + 1) ⟨kind, span, span⟩)
    (attached : ∀ span switchSpan, (Item.fact ⟨kind, span, switchSpan⟩).separate = none)
    (ascii : letter.utf8Size = 1) :
    Turn argv (before index offset letter rest) invocation (.more (behind index offset rest)
        (pushFact invocation kind (letterAt index offset) (letterAt index offset))) := by
  apply more_turn (.fact ⟨kind, letterAt index offset, letterAt index offset⟩) ⟨rfl, placed _⟩ (attached _ _)
  · simp [Item.spelling, spelled, before, behind]
  · simp [Item.spelling, spelled, before, behind, ascii]
  · rfl

theorem take_run_parts (cluster : Cluster) (accept : Char → Bool) (limit : Nat) :
    ∃ value rest, cluster.remaining = value ++ rest ∧ cluster.takeRun accept limit =
      (value, ⟨cluster.index, cluster.offset, cluster.offset + size value⟩,
        ⟨cluster.index, cluster.offset + size value, rest⟩) := by
  refine ⟨_, _, ?_, rfl⟩
  have front : (cluster.remaining.take limit).takeWhile accept <+: cluster.remaining :=
    (List.takeWhile_prefix _).trans (List.take_prefix _ _)
  conv_lhs => rw [← List.take_append_drop
    ((cluster.remaining.take limit).takeWhile accept).length cluster.remaining]
  rw [← List.prefix_iff_eq_take.mp front]

theorem take_prefixed_parts (cluster : Cluster) (measure : Text → Nat) :
    cluster.takePrefixedValue measure = (none, cluster) ∨
      ∃ value rest, cluster.remaining = value ++ rest ∧ cluster.takePrefixedValue measure =
        (some (value, ⟨cluster.index, cluster.offset, cluster.offset + size value⟩),
          ⟨cluster.index, cluster.offset + size value, rest⟩) := by
  unfold Cluster.takePrefixedValue
  dsimp only
  split
  next => exact .inl rfl
  next value rest cut =>
    obtain ⟨parts, width⟩ := (split_at_byte_iff _ _ _ _).mp cut
    split
    next => exact .inl rfl
    next => exact .inr ⟨value, rest, parts, by rw [← width]⟩

theorem line_ending_turn
    (decoded : decodeLineEnding (letterAt index offset) (behind index offset rest) invocation =
      .ok flow) : Turn argv (before index offset 'l' rest) invocation flow := by
  unfold decodeLineEnding at decoded
  dsimp only at decoded
  generalize (if (behind index offset rest).remaining.head? = some '0' then 4 else 3) = limit at decoded
  obtain ⟨digits, tail, parts, taken⟩ := take_run_parts (behind index offset rest) isOctalDigit limit
  rw [taken] at decoded
  dsimp only [behind] at decoded parts
  subst parts
  cases decoded
  by_cases none : digits = []
  · subst none
    apply more_turn (.fact ⟨.lineEnding none, letterAt index offset, letterAt index offset⟩) ⟨rfl, rfl⟩ rfl
    · rfl
    · simp [before, Item.spelling, ContextFact.spelling, size_cons]
      rfl
    · rfl
  · have some : digits.isEmpty = false := by simpa using none
    rw [some]
    refine more_turn (.fact ⟨.lineEnding (Option.some digits),
      ⟨index, offset + 1, offset + 1 + size digits⟩, letterAt index offset⟩) ?_ rfl ?_ ?_ ?_
    · exact ⟨rfl, rfl⟩
    · rfl
    · simp only [before, Item.spelling, ContextFact.spelling, Option.getD_some, size_cons,
        true_and, ← Nat.add_assoc]
      rfl
    · rfl

theorem record_separator_turn
    (decoded : decodeRecordSeparator (letterAt index offset) (behind index offset rest) invocation =
      .ok flow) : Turn argv (before index offset '0' rest) invocation flow := by
  unfold decodeRecordSeparator takeRecordSeparatorDigits at decoded
  by_cases hex : hexadecimal (behind index offset rest).remaining = true
  · rw [if_pos hex] at decoded
    cases rest with
    | nil => cases hex
    | cons marker after =>
      have isMarker : marker = 'x' := by
        unfold hexadecimal behind at hex
        split at hex
        next shape => exact (List.cons.inj shape).1
        next => cases hex
      subst isMarker
      dsimp only [behind, Cluster.nextLetter] at decoded
      obtain ⟨digits, tail, parts, taken⟩ := take_run_parts
        ⟨index, offset + 1 + ('x' : Char).utf8Size, after⟩ isHexDigit (2 ^ 64 - 1)
      rw [taken] at decoded
      dsimp only at decoded parts
      subst parts
      cases decoded
      refine more_turn (.fact ⟨.recordSeparator (some (.hex digits)),
        ⟨index, offset + 1 + 1, offset + 1 + 1 + size digits⟩, letterAt index offset⟩) ?_ rfl ?_ ?_ ?_
      · exact ⟨rfl, rfl⟩
      · rfl
      · simp only [before, Item.spelling, ContextFact.spelling, size_cons, true_and, ← Nat.add_assoc]
        rfl
      · rfl
  · rw [if_neg hex] at decoded
    obtain ⟨digits, tail, parts, taken⟩ :=
      take_run_parts (behind index offset rest) isOctalDigit octalSeparatorDigitLimit
    rw [taken] at decoded
    dsimp only [behind] at decoded parts
    subst parts
    by_cases none : digits = []
    · subst none
      cases decoded
      refine more_turn (.fact ⟨.recordSeparator none, letterAt index offset, letterAt index offset⟩)
        ?_ rfl ?_ ?_ ?_
      · exact ⟨rfl, rfl⟩
      · rfl
      · simp [before, Item.spelling, ContextFact.spelling, size_cons]
        rfl
      · rfl
    · rw [if_neg (by simpa using none)] at decoded
      cases decoded
      refine more_turn (.fact ⟨.recordSeparator (some (.octal digits)),
        ⟨index, offset + 1, offset + 1 + size digits⟩, letterAt index offset⟩) ?_ rfl ?_ ?_ ?_
      · exact ⟨rfl, rfl⟩
      · rfl
      · simp only [before, Item.spelling, ContextFact.spelling, size_cons, true_and, ← Nat.add_assoc]
        rfl
      · rfl

/-- A module option is read whole: its parts, put together, are its text. -/
theorem module_spec_text {text : Text} {start stop : Nat} {switch : Char} {spec : ModuleSpec}
    (decoded : decodeModuleSpec text ⟨index, start, stop⟩ switch = .ok spec) :
    spec.text = text ∧ SpecAt index start spec := by
  unfold decodeModuleSpec at decoded
  dsimp only at decoded
  generalize head : stripNegation text start = parts at decoded
  obtain ⟨negated, body, bodyStart⟩ := parts
  have shape : text = (if negated then ['-'] else []) ++ body ∧
      bodyStart = start + (if negated then 1 else 0) := by
    unfold stripNegation at head
    split at head
    · cases head
      exact ⟨rfl, rfl⟩
    · cases head
      exact ⟨rfl, rfl⟩
  obtain ⟨rfl, rfl⟩ := shape
  split at decoded
  next => cases decoded
  next => cases decoded
  next nameLength _ _ =>
    have body_parts := List.take_append_drop nameLength body
    split at decoded
    next arguments trailing =>
      rw [trailing] at body_parts
      cases decoded
      refine ⟨?_, rfl, rfl⟩
      simp only [ModuleSpec.text]
      rw [List.append_assoc, body_parts]
    next trailing =>
      cases decoded
      exact ⟨by simp [ModuleSpec.text], rfl, rfl⟩
    next =>
      split at decoded
      · cases decoded
      · cases decoded
        exact ⟨by simp [ModuleSpec.text], rfl, rfl⟩

theorem module_import_turn (form : ModuleForm) (letter : Char)
    (decoded : decodeModuleImport form letter (letterAt index offset) (behind index offset rest)
      invocation = .ok flow) : Turn argv (before index offset form.letter rest) invocation flow := by
  unfold decodeModuleImport at decoded
  dsimp only [Cluster.rest, behind] at decoded
  split at decoded
  next => cases decoded
  next =>
    split at decoded
    next => cases decoded
    next spec found =>
      obtain ⟨rfl, placed⟩ := module_spec_text found
      cases decoded
      have turn (ambiguities : List Ambiguity) :
          Turn argv (before index offset form.letter spec.text) invocation
            (.done (index + 1) (recordWith invocation
              (.fact ⟨.moduleImport form spec, ⟨index, offset + 1, offset + 1 + size spec.text⟩,
                letterAt index offset⟩) ambiguities)) :=
        .last _ ambiguities ⟨rfl, rfl, placed⟩ rfl rfl
      split
      · exact turn invocation.ambiguities
      · exact turn _
      · exact turn _

theorem unsupported_turn (kind : UnsupportedSwitchKind) (letter : Char)
    (decoded : decodeUnsupported kind letter (letterAt index offset) (behind index offset rest)
      invocation = .ok flow) (ascii : letter.utf8Size = 1) :
    Turn argv (before index offset letter rest) invocation flow := by
  cases decoded
  have whole : offset + 1 + size rest = offset + size (letter :: rest) := by
    rw [size_cons, ascii, Nat.add_assoc]
  exact .last (.unsupported ⟨kind, letter :: rest, ⟨index, offset, offset + 1 + size rest⟩⟩)
    invocation.ambiguities ⟨by rw [whole]; rfl, by simp⟩ rfl rfl

theorem swallowing_turn (switch : NeutralSwitch)
    (decoded : decodeSwallowing switch (letterAt index offset) (behind index offset rest)
      invocation = .ok flow) : Turn argv (before index offset switch.letter rest) invocation flow := by
  unfold decodeSwallowing at decoded
  dsimp only [Cluster.rest, behind] at decoded
  split at decoded
  next => cases decoded
  next =>
    cases decoded
    by_cases none : rest = []
    · subst none
      exact .last (.neutral ⟨switch, none, letterAt index offset, letterAt index offset⟩)
        invocation.ambiguities ⟨rfl, rfl⟩ rfl rfl
    have some : rest.isEmpty = false := by simpa using none
    rw [some]
    exact .last (.neutral ⟨switch, Option.some rest,
      ⟨index, offset + 1, offset + 1 + size rest⟩, letterAt index offset⟩)
      invocation.ambiguities ⟨rfl, rfl⟩ rfl rfl

theorem prefixed_turn (switch : NeutralSwitch) (measure : Text → Nat)
    (decoded : decodePrefixed switch measure (letterAt index offset) (behind index offset rest)
      invocation = .ok flow) (ascii : switch.letter.utf8Size = 1) :
    Turn argv (before index offset switch.letter rest) invocation flow := by
  unfold decodePrefixed at decoded
  rcases take_prefixed_parts (behind index offset rest) measure with taken | ⟨value, tail, parts, taken⟩
  · rw [taken] at decoded
    cases decoded
    apply more_turn (.neutral ⟨switch, none, letterAt index offset, letterAt index offset⟩) ⟨rfl, rfl⟩ rfl
    · rfl
    · simp [before, behind, Item.spelling, ascii]
    · rfl
  · rw [taken] at decoded
    dsimp only [behind] at decoded parts
    subst parts
    cases decoded
    refine more_turn (.neutral ⟨switch, some value, ⟨index, offset + 1, offset + 1 + size value⟩,
      letterAt index offset⟩) ?_ rfl ?_ ?_ ?_
    · exact ⟨rfl, rfl⟩
    · rfl
    · simp only [before, Item.spelling, Option.getD_some, size_cons, ascii, true_and, ← Nat.add_assoc]
    · rfl

theorem terminating_turn (kind : TerminatingActionKind)
    (decoded : decodeTerminating kind (letterAt index offset) (behind index offset rest)
      invocation = .ok flow) : Turn argv (before index offset kind.letter rest) invocation flow := by
  unfold decodeTerminating at decoded
  cases decoded
  exact .terminating kind rest rfl

end Arms

theorem neutral_letter {letter : Char} {switch : NeutralSwitch}
    (found : neutralSwitch letter = some switch) :
    letter = switch.letter ∧ switch.letter.utf8Size = 1 := by
  unfold neutralSwitch at found
  split at found
  all_goals cases found
  all_goals exact ⟨rfl, rfl⟩

/-- Whatever the letter, the turn is one of the kinds above. -/
theorem step_turn {argv : List Text} {cluster : Cluster} {invocation : PerlInvocation}
    {flow : ClusterFlow} (stepped : clusterStep argv cluster invocation = .ok flow) :
    Turn argv cluster invocation flow := by
  obtain ⟨index, offset, remaining⟩ := cluster
  cases remaining with
  | nil =>
    cases stepped
    exact .exhausted rfl
  | cons letter rest =>
    unfold clusterStep at stepped
    dsimp only [Cluster.nextLetter] at stepped
    split at stepped
    case h_1 => exact source_turn .e _ stepped
    case h_2 => exact source_turn .bigE _ stepped
    case h_3 => exact include_turn stepped
    case h_4 => exact module_import_turn .use _ stepped
    case h_5 => exact module_import_turn .useSuppressingDefaultImport _ stepped
    case h_6 => exact split_pattern_turn stepped
    case h_7 => exact line_ending_turn stepped
    case h_8 => exact record_separator_turn stepped
    case h_9 =>
      cases stepped
      exact fact_turn (fun _ _ => rfl) (fun _ => rfl) (fun _ _ => rfl) rfl
    case h_10 =>
      cases stepped
      exact fact_turn (fun _ _ => rfl) (fun _ => rfl) (fun _ _ => rfl) rfl
    case h_11 =>
      cases stepped
      exact fact_turn (fun _ _ => rfl) (fun _ => rfl) (fun _ _ => rfl) rfl
    case h_12 =>
      cases stepped
      exact fact_turn (fun _ _ => rfl) (fun _ => rfl) (fun _ _ => rfl) rfl
    case h_13 => exact unsupported_turn .scriptTextOffset _ stepped rfl
    case h_14 => exact unsupported_turn .debuggingFlags _ stepped rfl
    case h_15 => exact swallowing_turn .unicodeFlags stepped
    case h_16 => exact swallowing_turn .inPlaceEdit stepped
    case h_17 => exact prefixed_turn .configuration configurationLength stepped rfl
    case h_18 => exact prefixed_turn .debugger debuggerLength stepped rfl
    case h_19 => exact terminating_turn .version stepped
    case h_20 => exact terminating_turn .usage stepped
    case h_21 =>
      split at stepped
      next => cases stepped
      next switch found =>
        obtain ⟨rfl, ascii⟩ := neutral_letter found
        cases stepped
        refine more_turn (.neutral ⟨switch, none, letterAt index offset, letterAt index offset⟩)
          ⟨rfl, rfl⟩ rfl ?_ ?_ ?_
        · rfl
        · simp [Item.spelling]
        · simp [ascii, pushNeutral, record, letterAt]

section Loops

theorem spelling_some {item : Item} {index offset : Nat} (stands : item.StandsAt index offset) :
    item.spelling ≠ [] := by
  cases item with
  | fragment piece | neutral use => simp [Item.spelling]
  | fact given =>
    change given.spelling ≠ []
    unfold ContextFact.spelling
    split <;> simp
  | unsupported switch => exact stands.2

theorem step_shorter {argv : List Text} {cluster next : Cluster} {invocation after : PerlInvocation}
    (stepped : clusterStep argv cluster invocation = .ok (.more next after)) :
    next.remaining.length < cluster.remaining.length := by
  cases step_turn stepped with
  | more item ambiguities rest stands attached spelled =>
    have some := List.length_pos_of_ne_nil (spelling_some stands)
    rw [spelled, List.length_append]
    exact Nat.lt_add_of_pos_left some

/-- The loop of `decode_cluster` over the letters. -/
def decodeLetters (argv : List Text) (cluster : Cluster) (invocation : PerlInvocation) :
    Except InvocationDecodeError (Nat × PerlInvocation) :=
  match stepped : clusterStep argv cluster invocation with
  | .error refused => .error refused
  | .ok (.done nextIndex invocation) => .ok (nextIndex, invocation)
  | .ok (.more next invocation) => decodeLetters argv next invocation
termination_by cluster.remaining.length
decreasing_by exact step_shorter stepped

def decodeCluster (argv : List Text) (index : Nat) (invocation : PerlInvocation) :
    Except InvocationDecodeError (Nat × PerlInvocation) :=
  decodeLetters argv (Cluster.new ((argv[index]?).getD []) index) invocation

section
variable {argv : List Text} {cluster : Cluster} {invocation after : PerlInvocation}
    {nextIndex : Nat} (decoded : decodeLetters argv cluster invocation = .ok (nextIndex, after))
include argv cluster invocation after nextIndex decoded

theorem decode_letters_cases : clusterStep argv cluster invocation = .ok (.done nextIndex after) ∨
      ∃ next middle, clusterStep argv cluster invocation = .ok (.more next middle) ∧
        decodeLetters argv next middle = .ok (nextIndex, after) := by
  rw [decodeLetters] at decoded
  split at decoded
  next => cases decoded
  next stepped =>
    cases decoded
    exact .inl stepped
  next next middle stepped => exact .inr ⟨next, middle, stepped, decoded⟩

theorem letters_advance : cluster.index < nextIndex := by
  induction size : cluster.remaining.length using Nat.strongRecOn generalizing cluster invocation with
  | ind length ih =>
    rcases decode_letters_cases decoded with stepped | ⟨next, middle, stepped, rest⟩
    · cases step_turn stepped <;> omega
    have shorter := step_shorter stepped
    have further := ih next.remaining.length (by omega) rest rfl
    cases step_turn stepped
    exact further

end

def isSwitchCluster (argument : Text) : Bool :=
  argument.head? == some '-' && argument != ['-']

def versionSpelling : Text := ['-', '-', 'v', 'e', 'r', 's', 'i', 'o', 'n']

def helpSpelling : Text := ['-', '-', 'h', 'e', 'l', 'p']

def decodeLongSwitch (argument : Text) (index : Nat) (invocation : PerlInvocation) :
    Except InvocationDecodeError PerlInvocation :=
  let kind := if argument = versionSpelling then some TerminatingActionKind.version
    else if argument = helpSpelling then some .usage
    else none
  match kind with
  | none => .error (.unrecognizedLongSwitch argument (wholeArgumentSpan index argument))
  | some kind =>
    .ok { invocation with terminatingAction := some ⟨kind, wholeArgumentSpan index argument⟩ }

/-- The loop of `decode` over the switches, up to the index it stops at. -/
def decodeSwitches (argv : List Text) (index : Nat) (invocation : PerlInvocation) :
    Except InvocationDecodeError (Nat × PerlInvocation) :=
  match found : argv[index]? with
  | none => .ok (index, invocation)
  | some argument =>
    if argument = ['-', '-'] then
      .ok (index + 1, { invocation with terminator := some (wholeArgumentSpan index argument) })
    else if isSwitchCluster argument = false then .ok (index, invocation)
    else if ['-', '-'].isPrefixOf argument then
      match decodeLongSwitch argument index invocation with
      | .error refused => .error refused
      | .ok invocation =>
        if invocation.terminatingAction.isSome then .ok (index + 1, invocation)
        else decodeSwitches argv (index + 1) invocation
    else
      match decoded : decodeCluster argv index invocation with
      | .error refused => .error refused
      | .ok (next, invocation) =>
        if invocation.terminatingAction.isSome then .ok (next, invocation)
        else decodeSwitches argv next invocation
termination_by argv.length - index
decreasing_by
  · have inside := (List.getElem?_eq_some_iff.mp found).1
    omega
  · have inside := (List.getElem?_eq_some_iff.mp found).1
    have further : index < next := letters_advance decoded
    omega

def argumentsFrom (argv : List Text) (index : Nat) : List ProgramArgument :=
  (argv.drop index).zipIdx.map fun pair => ⟨pair.1, wholeArgumentSpan (index + pair.2) pair.1⟩

/-- What `decode` does behind the loop. -/
def decodeOperands (argv : List Text) (index : Nat) (invocation : PerlInvocation) : PerlInvocation :=
  if invocation.terminatingAction.isSome then
    { invocation with
      uninterpretedArguments := invocation.uninterpretedArguments ++ argumentsFrom argv index
      program := .notReached }
  else
    let (program, index) :=
      if invocation.sourceFragments.isEmpty then
        match argv[index]? with
        | some operand =>
          let span := wholeArgumentSpan index operand
          if operand = ['-'] ∨ operand.isEmpty then (ProgramSource.standardInput span, index + 1)
          else (.scriptFile operand span, index + 1)
        | none => (.unspecified, index)
      else (.commandLineFragments, index)
    { invocation with program, programArguments := argumentsFrom argv index }

def emptyInvocation : PerlInvocation where
  interpreter := none
  sourceFragments := []
  contextFacts := []
  neutralSwitches := []
  unsupportedSwitches := []
  ambiguities := []
  terminatingAction := none
  uninterpretedArguments := []
  terminator := none
  program := .unspecified
  programArguments := []

def decode (argv : List Text) (lead : ArgvLead) : Except InvocationDecodeError PerlInvocation :=
  let start : Except InvocationDecodeError (Nat × PerlInvocation) := match lead with
    | .interpreter =>
      match argv.head? with
      | none => .error .missingInterpreter
      | some first =>
        .ok (1, { emptyInvocation with interpreter := some (wholeArgumentSpan 0 first) })
    | .switchesOnly => .ok (0, emptyInvocation)
  match start with
  | .error refused => .error refused
  | .ok (index, invocation) =>
    match decodeSwitches argv index invocation with
    | .error refused => .error refused
    | .ok (index, invocation) => .ok (decodeOperands argv index invocation)

end Loops

end PerlLsp.CommandLine
