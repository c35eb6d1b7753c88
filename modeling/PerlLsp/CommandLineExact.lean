import PerlLsp.CommandLineTurns

/-! Decoding a Perl command line loses nothing: every recorded text is the slice its span names, the
spans of different switches do not overlap, and the invocation determines the arguments. -/
namespace PerlLsp.CommandLine
open Utf8 List

inductive Stop
  | finished (nextIndex : Nat)
  | acted (kind : TerminatingActionKind) (offset : Nat) (tail : Text)

inductive Spelled (argv : List Text) (index : Nat) : Nat → Text → List Item → Stop → Prop
  | exhausted (offset : Nat) : Spelled argv index offset [] [] (.finished (index + 1))
  | acted (offset : Nat) (kind : TerminatingActionKind) (tail : Text) :
      Spelled argv index offset (kind.letter :: tail) [] (.acted kind offset tail)
  | separate (offset : Nat) (item : Item) (value : Text) :
      item.StandsAt index offset → item.separate = some value → argv[index + 1]? = some value →
      Spelled argv index offset item.spelling [item] (.finished (index + 2))
  | more (offset : Nat) (item : Item) (items : List Item) (rest : Text) (stop : Stop) :
      item.StandsAt index offset → item.separate = none →
      Spelled argv index (offset + size item.spelling) rest items stop →
      Spelled argv index offset (item.spelling ++ rest) (item :: items) stop

def Item.fragment? : Item → Option SourceFragment
  | .fragment piece => some piece
  | _ => none

def Item.fact? : Item → Option ContextFact
  | .fact given => some given
  | _ => none

def Item.neutral? : Item → Option NeutralSwitchUse
  | .neutral use => some use
  | _ => none

def Item.unsupported? : Item → Option UnsupportedSwitch
  | .unsupported switch => some switch
  | _ => none

/-- The items are recorded; nothing else has changed but the ambiguities. -/
structure Grows (invocation : PerlInvocation) (items : List Item) (after : PerlInvocation) : Prop where
  fragments : after.sourceFragments = invocation.sourceFragments ++ items.filterMap Item.fragment?
  facts : after.contextFacts = invocation.contextFacts ++ items.filterMap Item.fact?
  neutrals : after.neutralSwitches = invocation.neutralSwitches ++ items.filterMap Item.neutral?
  unsupporteds : after.unsupportedSwitches =
    invocation.unsupportedSwitches ++ items.filterMap Item.unsupported?
  interpreter : after.interpreter = invocation.interpreter
  action : after.terminatingAction = invocation.terminatingAction
  uninterpreted : after.uninterpretedArguments = invocation.uninterpretedArguments
  terminator : after.terminator = invocation.terminator
  program : after.program = invocation.program
  arguments : after.programArguments = invocation.programArguments

def TerminatingActionKind.longSpelling : TerminatingActionKind → Text
  | .version => versionSpelling
  | .usage => helpSpelling

/-- What stands behind the switches, and where. -/
inductive Tail
  | operands (index : Nat)
  | terminated (index : Nat)
  | long (kind : TerminatingActionKind) (index : Nat)
  | acted (kind : TerminatingActionKind) (index offset : Nat) (rest : Text)

inductive Run (argv : List Text) : Nat → List Item → Tail → Prop
  | operands (index : Nat) :
      (∀ argument, argv[index]? = some argument → isSwitchCluster argument = false) →
      Run argv index [] (.operands index)
  | terminated (index : Nat) : argv[index]? = some ['-', '-'] →
      Run argv index [] (.terminated index)
  | long (index : Nat) (kind : TerminatingActionKind) : argv[index]? = some kind.longSpelling →
      Run argv index [] (.long kind index)
  | cluster (index next : Nat) (text : Text) (items more : List Item) (tail : Tail) :
      argv[index]? = some ('-' :: text) → text ≠ [] →
      Spelled argv index 1 text items (.finished next) → Run argv next more tail →
      Run argv index (items ++ more) tail
  | acted (index offset : Nat) (text rest : Text) (items : List Item)
      (kind : TerminatingActionKind) :
      argv[index]? = some ('-' :: text) → Spelled argv index 1 text items (.acted kind offset rest) →
      Run argv index items (.acted kind index offset rest)

def Tail.next : Tail → Nat
  | .operands index => index
  | .terminated index => index + 1
  | .long _ index => index + 1
  | .acted _ index _ _ => index + 1

def Tail.note (invocation : PerlInvocation) : Tail → PerlInvocation
  | .operands _ => invocation
  | .terminated index =>
    { invocation with terminator := some (wholeArgumentSpan index ['-', '-']) }
  | .long kind index =>
    { invocation with
      terminatingAction := some ⟨kind, wholeArgumentSpan index kind.longSpelling⟩ }
  | .acted kind index offset rest => terminate invocation kind index offset rest

section Growing
variable {first second third : PerlInvocation} {items more : List Item}

theorem grows_refl (invocation : PerlInvocation) : Grows invocation [] invocation := by
  constructor <;> simp

theorem grows_trans (front : Grows first items second) (back : Grows second more third) :
    Grows first (items ++ more) third := by
  constructor
  · rw [back.fragments, front.fragments, filterMap_append, append_assoc]
  · rw [back.facts, front.facts, filterMap_append, append_assoc]
  · rw [back.neutrals, front.neutrals, filterMap_append, append_assoc]
  · rw [back.unsupporteds, front.unsupporteds, filterMap_append, append_assoc]
  · exact back.interpreter.trans front.interpreter
  · exact back.action.trans front.action
  · exact back.uninterpreted.trans front.uninterpreted
  · exact back.terminator.trans front.terminator
  · exact back.program.trans front.program
  · exact back.arguments.trans front.arguments

theorem grows_record (invocation : PerlInvocation) (item : Item) (ambiguities : List Ambiguity) :
    Grows invocation [item] (recordWith invocation item ambiguities) := by
  cases item <;> constructor <;>
    simp [recordWith, record, Item.fragment?, Item.fact?, Item.neutral?, Item.unsupported?]

end Growing

def Reached (invocation : PerlInvocation) (items : List Item) (index : Nat) (stop : Stop)
    (nextIndex : Nat) (after : PerlInvocation) : Prop :=
  match stop with
  | .finished next => nextIndex = next ∧ Grows invocation items after
  | .acted kind offset tail => nextIndex = index + 1 ∧ ∃ middle, Grows invocation items middle ∧
      after = terminate middle kind index offset tail

section Reading
variable {argv : List Text}

theorem letters_spelled {cluster : Cluster} {invocation after : PerlInvocation} {nextIndex : Nat}
    (decoded : decodeLetters argv cluster invocation = .ok (nextIndex, after)) :
    ∃ items stop, Spelled argv cluster.index cluster.offset cluster.remaining items stop ∧
      Reached invocation items cluster.index stop nextIndex after := by
  induction length : cluster.remaining.length using Nat.strongRecOn
    generalizing cluster invocation with
  | ind length ih =>
    rcases decode_letters_cases decoded with stepped | ⟨next, middle, stepped, rest⟩
    · generalize flow : ClusterFlow.done nextIndex after = taken at stepped
      cases step_turn stepped with
      | exhausted empty =>
        cases flow
        rw [empty]
        exact ⟨[], _, .exhausted _, rfl, grows_refl _⟩
      | more => cases flow
      | last item ambiguities stands attached spelled =>
        cases flow
        have whole : Spelled argv cluster.index cluster.offset (item.spelling ++ []) [item]
            (.finished (cluster.index + 1)) :=
          .more _ item [] [] _ stands attached (.exhausted _)
        rw [append_nil, ← spelled] at whole
        exact ⟨[item], _, whole, rfl, grows_record _ _ _⟩
      | separate item value ambiguities stands taken found spelled =>
        cases flow
        have whole := Spelled.separate _ item value stands taken found
        rw [← spelled] at whole
        exact ⟨[item], _, whole, rfl, grows_record _ _ _⟩
      | terminating kind tail spelled =>
        cases flow
        rw [spelled]
        exact ⟨[], _, .acted _ kind tail, rfl, invocation, grows_refl _, rfl⟩
    · have shorter := step_shorter stepped
      obtain ⟨items, stop, spelledRest, reached⟩ := ih _ (by omega) rest rfl
      cases step_turn stepped with
      | more item ambiguities tail stands attached spelled =>
        refine ⟨item :: items, stop, ?_, ?_⟩
        · rw [spelled]
          exact .more _ item items tail stop stands attached spelledRest
        · have front := grows_record invocation item ambiguities
          cases stop with
          | finished next => exact ⟨reached.1, grows_trans front reached.2⟩
          | acted kind offset behind =>
            obtain ⟨same, middle, grown, ended⟩ := reached
            exact ⟨same, middle, grows_trans front grown, ended⟩

theorem cluster_new {text : Text} (index : Nat) : Cluster.new ('-' :: text) index = ⟨index, 1, text⟩ := by
  have one : ('-' : Char).utf8Size = 1 := rfl
  have start : min 1 (size ('-' :: text)) = 1 := by
    rw [size_cons]
    omega
  have cut := split_at_byte ['-'] text
  have width : size ['-'] = 1 := rfl
  rw [width, singleton_append] at cut
  unfold Cluster.new
  simp only [start, cut]
  rfl

theorem switch_cluster_text {argument : Text} (switches : isSwitchCluster argument = true) :
    ∃ text, argument = '-' :: text ∧ text ≠ [] := by
  unfold isSwitchCluster at switches
  cases argument with
  | nil => cases switches
  | cons first text =>
    simp at switches
    obtain ⟨rfl, some⟩ := switches
    exact ⟨text, rfl, by simpa using some⟩

theorem long_switch_acts {argument : Text} {index : Nat} {invocation after : PerlInvocation}
    (decoded : decodeLongSwitch argument index invocation = .ok after) :
    ∃ kind : TerminatingActionKind, argument = kind.longSpelling ∧ after = { invocation with
      terminatingAction := some ⟨kind, wholeArgumentSpan index kind.longSpelling⟩ } := by
  unfold decodeLongSwitch at decoded
  by_cases version : argument = versionSpelling
  · rw [version] at decoded
    exact ⟨.version, version, (Except.ok.inj decoded).symm⟩
  by_cases help : argument = helpSpelling
  · rw [help] at decoded
    exact ⟨.usage, help, (Except.ok.inj decoded).symm⟩
  · simp only [version, help, if_false] at decoded
    cases decoded

theorem switches_run {index next : Nat} {invocation after : PerlInvocation}
    (going : invocation.terminatingAction = none)
    (decoded : decodeSwitches argv index invocation = .ok (next, after)) :
    ∃ items tail middle, Run argv index items tail ∧ Grows invocation items middle ∧
      after = tail.note middle ∧ next = tail.next := by
  induction left : argv.length - index using Nat.strongRecOn generalizing index invocation with
  | ind left ih =>
    rw [decodeSwitches] at decoded
    split at decoded
    next ended =>
      obtain ⟨rfl, rfl⟩ := Prod.mk.inj (Except.ok.inj decoded)
      refine ⟨[], .operands index, invocation, .operands index ?_, grows_refl _, rfl, rfl⟩
      intro argument found
      rw [ended] at found
      cases found
    next argument found =>
      have inside := (List.getElem?_eq_some_iff.mp found).1
      split at decoded
      next isTerminator =>
        obtain ⟨rfl, rfl⟩ := Prod.mk.inj (Except.ok.inj decoded)
        subst isTerminator
        exact ⟨[], .terminated index, invocation, .terminated index found, grows_refl _, rfl, rfl⟩
      next =>
        split at decoded
        next operand =>
          obtain ⟨rfl, rfl⟩ := Prod.mk.inj (Except.ok.inj decoded)
          refine ⟨[], .operands index, invocation, .operands index ?_, grows_refl _, rfl, rfl⟩
          intro other same
          obtain rfl := Option.some.inj (found.symm.trans same)
          exact operand
        next switches =>
          split at decoded
          next =>
            split at decoded
            next => cases decoded
            next acted long =>
              obtain ⟨kind, rfl, rfl⟩ := long_switch_acts long
              have acts : Except.ok (index + 1, _) = Except.ok (next, after) := decoded
              obtain ⟨rfl, rfl⟩ := Prod.mk.inj (Except.ok.inj acts)
              exact ⟨[], .long kind index, invocation, .long index kind found, grows_refl _, rfl, rfl⟩
          next =>
            obtain ⟨text, rfl, some⟩ := switch_cluster_text (by simpa using switches)
            split at decoded
            next => cases decoded
            next further middle clustered =>
              unfold decodeCluster at clustered
              rw [found, Option.getD_some, cluster_new] at clustered
              have advanced := letters_advance clustered
              obtain ⟨items, stop, spelled, reached⟩ := letters_spelled clustered
              cases stop with
              | finished after =>
                obtain ⟨rfl, grown⟩ := reached
                have goingOn : middle.terminatingAction = none := grown.action.trans going
                rw [goingOn, if_neg (by simp)] at decoded
                obtain ⟨more, tail, last, run, grownToo, noted, same⟩ :=
                  ih _ (by dsimp only at advanced; omega) goingOn decoded rfl
                exact ⟨items ++ more, tail, last,
                  .cluster index further text items more tail found some spelled run,
                  grows_trans grown grownToo, noted, same⟩
              | acted kind offset rest =>
                obtain ⟨rfl, last, grown, rfl⟩ := reached
                have acts : Except.ok (index + 1, _) = Except.ok (next, after) := decoded
                obtain ⟨rfl, rfl⟩ := Prod.mk.inj (Except.ok.inj acts)
                exact ⟨items, .acted kind index offset rest, last,
                  .acted index offset text rest items kind found spelled, grown, rfl, rfl⟩

end Reading

def TextAt (argv : List Text) (span : ArgvSpan) (text : Text) : Prop :=
  ∃ argument, argv[span.argumentIndex]? = some argument ∧
    slice argument span.start span.stop = some text

def ArgvSpan.Before (left right : ArgvSpan) : Prop :=
  left.argumentIndex < right.argumentIndex ∨
    left.argumentIndex = right.argumentIndex ∧ left.stop ≤ right.start

def ArgvSpan.Apart (left right : ArgvSpan) : Prop :=
  left.Before right ∨ right.Before left

def ModuleSpec.texts (spec : ModuleSpec) : List (Text × Option ArgvSpan) :=
  (spec.moduleText, some spec.moduleSpan) ::
    match spec.importArguments with
    | some arguments => [(arguments, spec.importArgumentsSpan)]
    | none => []

def ContextFact.texts (fact : ContextFact) : List (Text × Option ArgvSpan) :=
  match fact.kind with
  | .splitPattern pattern => [(pattern, some fact.span)]
  | .lineEnding (some digits) => [(digits, some fact.span)]
  | .recordSeparator (some (.octal digits)) => [(digits, some fact.span)]
  | .recordSeparator (some (.hex digits)) => [(digits, some fact.span)]
  | .includeDirectory directory => [(directory, some fact.span)]
  | .moduleImport _ spec => spec.texts
  | _ => []

def NeutralSwitchUse.texts (use : NeutralSwitchUse) : List (Text × Option ArgvSpan) :=
  match use.value with
  | some value => [(value, some use.span)]
  | none => []

def ContextFact.spans (fact : ContextFact) : List ArgvSpan :=
  [fact.switchSpan, fact.span] ++
    match fact.kind with
    | .moduleImport _ spec => spec.moduleSpan :: spec.importArgumentsSpan.toList
    | _ => []

def Item.texts : Item → List (Text × Option ArgvSpan)
  | .fragment piece => [(piece.text, some piece.span)]
  | .fact given => given.texts
  | .neutral use => use.texts
  | .unsupported switch => [(switch.spelling, some switch.span)]

def Item.spans : Item → List ArgvSpan
  | .fragment piece => [piece.switchSpan, piece.span]
  | .fact given => given.spans
  | .neutral use => [use.switchSpan, use.span]
  | .unsupported switch => [switch.span]

structure Item.Sound (argv : List Text) (item : Item) : Prop where
  texts : ∀ text span, (text, span) ∈ item.texts →
    ∃ place, span = some place ∧ TextAt argv place text
  spans : ∀ span ∈ item.spans, ∃ text, TextAt argv span text

section Sound
variable {argv : List Text} {index offset : Nat}
variable {front rest : Text}

theorem text_at_inside {text back : Text} {start : Nat}
    (found : argv[index]? = some (front ++ text ++ back)) (width : size front = start) :
    TextAt argv ⟨index, start, start + size text⟩ text := by
  subst width
  exact ⟨_, found, slice_parts front text back⟩

/-- A text behind the first letters of what an item is spelled as. -/
theorem text_at_behind (front lead text back : Text) {start : Nat}
    (found : argv[index]? = some (front ++ (lead ++ text ++ back))) (width : size front = offset)
    (reached : offset + size lead = start) : TextAt argv ⟨index, start, start + size text⟩ text := by
  have whole : front ++ (lead ++ text ++ back) = (front ++ lead) ++ text ++ back := by simp
  rw [whole] at found
  apply text_at_inside found
  rw [size_append, width, reached]

theorem letter_sound {letter : Char} (ascii : letter.utf8Size = 1)
    (found : argv[index]? = some (front ++ (letter :: rest))) (width : size front = offset) :
    TextAt argv ⟨index, offset, offset + 1⟩ [letter] := by
  have one : size [letter] = 1 := by simp [ascii]
  have there := text_at_behind front [] [letter] rest (by simpa using found) width rfl
  rwa [one] at there

theorem attached_sound {text : Text} {letter : Char} (ascii : letter.utf8Size = 1)
    (found : argv[index]? = some (front ++ (letter :: text ++ rest))) (width : size front = offset) :
    TextAt argv ⟨index, offset + 1, offset + 1 + size text⟩ text := by
  have one : size [letter] = 1 := by simp [ascii]
  exact text_at_behind front [letter] text rest (by simpa using found) width (by rw [one])

theorem value_sound {text : Text} {letter : Char} {span : ArgvSpan} (ascii : letter.utf8Size = 1)
    (found : argv[index]? =
      some (front ++ (letter :: attachedText text span ⟨index, offset, offset + 1⟩ ++ rest)))
    (width : size front = offset)
    (taken : ∀ value, separateText text span ⟨index, offset, offset + 1⟩ = some value →
      argv[index + 1]? = some value)
    (stands : ValueAt index (offset + 1) text span) : TextAt argv span text := by
  rcases stands with rfl | rfl
  · rw [attachedText, if_pos rfl] at found
    exact attached_sound ascii found width
  have here : argv[index + 1]? = some text := taken text (if_neg (by simp))
  have whole : argv[index + 1]? = some ([] ++ text ++ []) := by simpa using here
  have there := text_at_inside whole size_nil
  rwa [Nat.zero_add] at there

theorem sound_bare {item : Item} {span : ArgvSpan} {letter : Text} (none : item.texts = [])
    (spans : ∀ other ∈ item.spans, other = span) (there : TextAt argv span letter) : item.Sound argv := by
  constructor
  · intro text place inside
    rw [none] at inside
    cases inside
  · intro other inside
    rw [spans other inside]
    exact ⟨letter, there⟩

theorem sound_valued {item : Item} {span switchSpan : ArgvSpan} {letter text : Text}
    (one : item.texts = [(text, some span)])
    (spans : ∀ other ∈ item.spans, other = switchSpan ∨ other = span)
    (switchAt : TextAt argv switchSpan letter) (valueAt : TextAt argv span text) : item.Sound argv := by
  constructor
  · intro other place inside
    rw [one] at inside
    obtain ⟨rfl, rfl⟩ := Prod.mk.inj (mem_singleton.mp inside)
    exact ⟨span, rfl, valueAt⟩
  · intro other inside
    rcases spans other inside with rfl | rfl
    · exact ⟨letter, switchAt⟩
    · exact ⟨text, valueAt⟩

/-- A module option is its negation, its module and what stands behind that. -/
theorem spec_parts (spec : ModuleSpec) : ∃ negation behind,
    spec.text = negation ++ spec.moduleText ++ behind ∧ size negation = (if spec.negated then 1 else 0) ∧
      ∀ arguments, spec.importArguments = some arguments → behind = '=' :: arguments := by
  refine ⟨_, _, rfl, ?_, ?_⟩
  · split <;> rfl
  · intro arguments given
    rw [given]

/-- The parts of a module option, at the places that its negation and its `=` leave. -/
theorem spec_sound {letter : Char} {spec : ModuleSpec} (ascii : letter.utf8Size = 1)
    (found : argv[index]? = some (front ++ (letter :: spec.text ++ rest)))
    (width : size front = offset) (stands : SpecAt index (offset + 1) spec) :
    TextAt argv spec.moduleSpan spec.moduleText ∧
      spec.importArgumentsSpan.isSome = spec.importArguments.isSome ∧
      ∀ arguments span, spec.importArguments = some arguments →
        spec.importArgumentsSpan = some span → TextAt argv span arguments := by
  obtain ⟨modulePlace, argumentsPlace⟩ := stands
  obtain ⟨negation, behind, parts, signWidth, equalSign⟩ := spec_parts spec
  rw [parts] at found
  rw [modulePlace, argumentsPlace, ← signWidth]
  refine ⟨?_, by cases spec.importArguments <;> rfl, ?_⟩
  · apply text_at_behind front (letter :: negation) spec.moduleText (behind ++ rest)
      (by simpa using found) width
    rw [size_cons, ascii, Nat.add_assoc]
  · intro arguments span given placed
    rw [equalSign arguments given] at found
    rw [given] at placed
    obtain rfl := Option.some.inj placed
    have equals : ('=' : Char).utf8Size = 1 := rfl
    apply text_at_behind front (letter :: negation ++ spec.moduleText ++ ['=']) arguments rest
      (by simpa using found) width
    simp only [size_append, size_cons, size_nil, ascii, equals]
    omega

theorem source_letter (switch : SourceSwitch) : switch.letter.utf8Size = 1 := by
  cases switch <;> rfl

theorem form_letter (form : ModuleForm) : form.letter.utf8Size = 1 := by
  cases form <;> rfl

theorem switch_letter (switch : NeutralSwitch) : switch.letter.utf8Size = 1 := by
  cases switch <;> rfl

theorem fact_sound {given : ContextFact} (stands : (Item.fact given).StandsAt index offset)
    (found : argv[index]? = some (front ++ (given.spelling ++ rest))) (width : size front = offset)
    (taken : ∀ value, (Item.fact given).separate = some value → argv[index + 1]? = some value) :
    (Item.fact given).Sound argv := by
  obtain ⟨kind, span, switchSpan⟩ := given
  obtain ⟨rfl, placed⟩ := stands
  cases kind with
  | readLoop | printLoop | autoSplit | slurpMode =>
    obtain rfl : span = ⟨index, offset, offset + 1⟩ := placed
    exact sound_bare rfl (by simp [Item.spans, ContextFact.spans]) (letter_sound rfl found width)
  | splitPattern pattern =>
    obtain rfl := placed
    exact sound_valued rfl (by simp [Item.spans, ContextFact.spans])
      (letter_sound rfl found width) (attached_sound rfl found width)
  | lineEnding octalDigits =>
    cases octalDigits with
    | none =>
      obtain rfl : span = ⟨index, offset, offset + 1⟩ := placed
      exact sound_bare rfl (by simp [Item.spans, ContextFact.spans]) (letter_sound rfl found width)
    | some digits =>
      obtain rfl := placed
      exact sound_valued rfl (by simp [Item.spans, ContextFact.spans])
        (letter_sound rfl found width) (attached_sound rfl found width)
  | recordSeparator digits =>
    cases digits with
    | none =>
      obtain rfl : span = ⟨index, offset, offset + 1⟩ := placed
      exact sound_bare rfl (by simp [Item.spans, ContextFact.spans]) (letter_sound rfl found width)
    | some digits =>
      cases digits with
      | octal digits =>
        obtain rfl := placed
        exact sound_valued rfl (by simp [Item.spans, ContextFact.spans])
          (letter_sound rfl found width) (attached_sound rfl found width)
      | hex digits =>
        obtain rfl := placed
        have marked : TextAt argv ⟨index, offset + 1 + 1, offset + 1 + 1 + size digits⟩ digits :=
          text_at_behind front ['0', 'x'] digits rest found width rfl
        exact sound_valued rfl (by simp [Item.spans, ContextFact.spans])
          (letter_sound rfl found width) marked
  | includeDirectory directory =>
    exact sound_valued rfl (by simp [Item.spans, ContextFact.spans])
      (letter_sound rfl found width) (value_sound rfl found width taken placed)
  | moduleImport form spec =>
    obtain ⟨rfl, specPlaced⟩ := placed
    have ascii := form_letter form
    obtain ⟨moduleAt, both, argumentsAt⟩ := spec_sound ascii found width specPlaced
    constructor
    · intro text place inside
      rcases mem_cons.mp inside with same | more
      · obtain ⟨rfl, rfl⟩ := Prod.mk.inj same
        exact ⟨_, rfl, moduleAt⟩
      cases given : spec.importArguments with
      | none =>
        rw [given] at more
        cases more
      | some arguments =>
        rw [given] at more both
        obtain ⟨rfl, rfl⟩ := Prod.mk.inj (mem_singleton.mp more)
        obtain ⟨there, placed⟩ := Option.isSome_iff_exists.mp both
        exact ⟨there, placed, argumentsAt _ there given placed⟩
    · intro other inside
      simp only [Item.spans, ContextFact.spans, cons_append, nil_append,
        mem_cons, Option.mem_toList] at inside
      rcases inside with rfl | rfl | rfl | argumentsPlace
      · exact ⟨_, letter_sound ascii found width⟩
      · exact ⟨_, attached_sound ascii found width⟩
      · exact ⟨_, moduleAt⟩
      · rw [argumentsPlace] at both
        obtain ⟨arguments, given⟩ := Option.isSome_iff_exists.mp both.symm
        exact ⟨arguments, argumentsAt arguments other given argumentsPlace⟩

theorem stands_sound {item : Item} (stands : item.StandsAt index offset)
    (found : argv[index]? = some (front ++ (item.spelling ++ rest))) (width : size front = offset)
    (taken : ∀ value, item.separate = some value → argv[index + 1]? = some value) : item.Sound argv := by
  cases item with
  | fragment piece =>
    obtain ⟨switch, text, span, switchSpan⟩ := piece
    obtain ⟨rfl, placed⟩ := stands
    exact sound_valued rfl (by simp [Item.spans]) (letter_sound (source_letter switch) found width)
      (value_sound (source_letter switch) found width taken placed)
  | fact given => exact fact_sound stands found width taken
  | neutral use =>
    obtain ⟨switch, value, span, switchSpan⟩ := use
    obtain ⟨rfl, placed⟩ := stands
    cases value with
    | none =>
      obtain rfl : span = ⟨index, offset, offset + 1⟩ := placed
      exact sound_bare rfl (by simp [Item.spans]) (letter_sound (switch_letter switch) found width)
    | some value =>
      obtain rfl := placed
      exact sound_valued rfl (by simp [Item.spans]) (letter_sound (switch_letter switch) found width)
        (attached_sound (switch_letter switch) found width)
  | unsupported switch =>
    obtain ⟨kind, spelling, span⟩ := switch
    obtain ⟨placed, -⟩ := stands
    obtain rfl : span = ⟨index, offset, offset + size spelling⟩ := placed
    have whole : TextAt argv ⟨index, offset, offset + size spelling⟩ spelling :=
      text_at_behind front [] spelling rest found width rfl
    exact sound_valued rfl (by simp [Item.spans]) whole whole

end Sound

end PerlLsp.CommandLine
