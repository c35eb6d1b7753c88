import PerlLsp.CommandLineExact

/-! What a decoding of a Perl command line records is all there was, in its place: the spans of
the items follow one another as the arguments do, and the items and the tail give the
arguments back. -/
namespace PerlLsp.CommandLine
open Utf8 List Nat

def ArgvSpan.From (index offset : Nat) (span : ArgvSpan) : Prop :=
  index < span.argumentIndex ∨ index = span.argumentIndex ∧ offset ≤ span.start

def ArgvSpan.UpTo (index offset : Nat) (span : ArgvSpan) : Prop :=
  span.argumentIndex < index ∨ span.argumentIndex = index ∧ span.stop ≤ offset

def ArgvSpan.Within (index offset width : Nat) (span : ArgvSpan) : Prop :=
  span.argumentIndex = index ∧ offset ≤ span.start ∧ span.stop ≤ offset + width

def Item.switchSpan : Item → ArgvSpan
  | .fragment piece => piece.switchSpan
  | .fact given => given.switchSpan
  | .neutral use => use.switchSpan
  | .unsupported switch => switch.span

section Extents
variable {index offset : Nat}

theorem before_across {left right : ArgvSpan} (front : left.UpTo index offset)
    (back : right.From index offset) : left.Before right := by
  unfold ArgvSpan.UpTo at front
  unfold ArgvSpan.From at back
  unfold ArgvSpan.Before
  omega

variable {span : ArgvSpan}

theorem within_from {width : Nat} (inside : span.Within index offset width) : span.From index offset :=
  .inr ⟨inside.1.symm, inside.2.1⟩

theorem within_up_to {width : Nat} (inside : span.Within index offset width) :
    span.UpTo index (offset + width) :=
  .inr ⟨inside.1, inside.2.2⟩

theorem from_behind {start : Nat} (back : span.From index start) (further : offset ≤ start) :
    span.From index offset := by
  unfold ArgvSpan.From at *
  omega

theorem switch_span_stands {item : Item} (stands : item.StandsAt index offset) :
    item.switchSpan.argumentIndex = index ∧ item.switchSpan.start = offset ∧
      offset < item.switchSpan.stop := by
  cases item with
  | fragment piece =>
    have placed : piece.switchSpan = _ := stands.1
    simp [Item.switchSpan, placed]
  | fact given =>
    have placed : given.switchSpan = _ := stands.1
    simp [Item.switchSpan, placed]
  | neutral use =>
    have placed : use.switchSpan = _ := stands.1
    simp [Item.switchSpan, placed]
  | unsupported switch =>
    have placed : switch.span = _ := stands.1
    obtain ⟨first, rest, spelled⟩ := exists_cons_of_ne_nil stands.2
    have some := first.utf8Size_pos
    simp only [Item.switchSpan, placed, spelled, size_cons, true_and]
    omega

theorem switch_span_mem (item : Item) : item.switchSpan ∈ item.spans := by
  cases item <;> simp [Item.switchSpan, Item.spans, ContextFact.spans]

theorem value_extent {letter : Char} {text : Text} (ascii : letter.utf8Size = 1)
    (stands : ValueAt index (offset + 1) text span) :
    span.Within index offset (size (letter :: attachedText text span ⟨index, offset, offset + 1⟩)) ∨
      ∃ value, separateText text span ⟨index, offset, offset + 1⟩ = some value ∧
        span = ⟨index + 1, 0, size value⟩ := by
  rcases stands with rfl | rfl
  · left
    rw [attachedText, if_pos rfl, size_cons, ascii]
    refine ⟨rfl, ?_, ?_⟩ <;> dsimp only <;> omega
  · exact .inr ⟨text, if_neg (by simp), rfl⟩

theorem letter_extent (offset : Nat) {letter : Char} (text : Text) (ascii : letter.utf8Size = 1) :
    (⟨index, offset, offset + 1⟩ : ArgvSpan).Within index offset (size (letter :: text)) := by
  rw [size_cons]
  refine ⟨rfl, le_refl _, ?_⟩
  dsimp only
  omega

theorem part_extent {letter : Char} {text : Text} {start stop : Nat}
    (ascii : letter.utf8Size = 1) (front : offset + 1 ≤ start) (back : stop ≤ offset + 1 + size text) :
    (⟨index, start, stop⟩ : ArgvSpan).Within index offset (size (letter :: text)) := by
  rw [size_cons]
  refine ⟨rfl, ?_, ?_⟩ <;> dsimp only <;> omega

theorem spec_extent {spec : ModuleSpec} {letter : Char} (ascii : letter.utf8Size = 1)
    (stands : SpecAt index (offset + 1) spec)
    (inside : span ∈ spec.moduleSpan :: spec.importArgumentsSpan.toList) :
    span.Within index offset (size (letter :: spec.text)) := by
  obtain ⟨modulePlace, argumentsPlace⟩ := stands
  obtain ⟨negation, behind, parts, signWidth, equalSign⟩ := spec_parts spec
  have equals : ('=' : Char).utf8Size = 1 := rfl
  rw [modulePlace, argumentsPlace] at inside
  rw [parts]
  rcases mem_cons.mp inside with rfl | more
  · apply part_extent ascii
    · omega
    · simp only [size_append]
      omega
  · cases given : spec.importArguments with
    | none =>
      rw [given] at more
      cases more
    | some arguments =>
      rw [given] at more
      obtain rfl := mem_singleton.mp more
      rw [equalSign arguments given]
      apply part_extent ascii
      · omega
      · simp only [size_append, size_cons]
        omega

theorem fact_extent {given : ContextFact} (stands : (Item.fact given).StandsAt index offset)
    (inside : span ∈ given.spans) : span.Within index offset (size given.spelling) ∨
      ∃ value, (Item.fact given).separate = some value ∧ span = ⟨index + 1, 0, size value⟩ := by
  obtain ⟨kind, valueSpan, switchSpan⟩ := given
  obtain ⟨rfl, placed⟩ := stands
  have bare (letter : Char) (text : Text) (ascii : letter.utf8Size = 1)
      (same : span = ⟨index, offset, offset + 1⟩) :
      span.Within index offset (size (letter :: text)) := by
    rw [same]
    exact letter_extent offset text ascii
  cases kind with
  | readLoop =>
    obtain rfl : valueSpan = ⟨index, offset, offset + 1⟩ := placed
    exact .inl (bare 'n' [] rfl (by simpa [ContextFact.spans] using inside))
  | printLoop =>
    obtain rfl : valueSpan = ⟨index, offset, offset + 1⟩ := placed
    exact .inl (bare 'p' [] rfl (by simpa [ContextFact.spans] using inside))
  | autoSplit =>
    obtain rfl : valueSpan = ⟨index, offset, offset + 1⟩ := placed
    exact .inl (bare 'a' [] rfl (by simpa [ContextFact.spans] using inside))
  | slurpMode =>
    obtain rfl : valueSpan = ⟨index, offset, offset + 1⟩ := placed
    exact .inl (bare 'g' [] rfl (by simpa [ContextFact.spans] using inside))
  | splitPattern pattern =>
    obtain rfl := placed
    have either : span = ⟨index, offset, offset + 1⟩ ∨
        span = ⟨index, offset + 1, offset + 1 + size pattern⟩ := by
      simpa [ContextFact.spans] using inside
    rcases either with same | rfl
    · exact .inl (bare 'F' pattern rfl same)
    · exact .inl (part_extent rfl (le_refl _) (le_refl _))
  | lineEnding octalDigits =>
    cases octalDigits with
    | none =>
      obtain rfl : valueSpan = ⟨index, offset, offset + 1⟩ := placed
      exact .inl (bare 'l' [] rfl (by simpa [ContextFact.spans] using inside))
    | some digits =>
      obtain rfl := placed
      have either : span = ⟨index, offset, offset + 1⟩ ∨
          span = ⟨index, offset + 1, offset + 1 + size digits⟩ := by
        simpa [ContextFact.spans] using inside
      rcases either with same | rfl
      · exact .inl (bare 'l' digits rfl same)
      · exact .inl (part_extent rfl (le_refl _) (le_refl _))
  | recordSeparator digits =>
    cases digits with
    | none =>
      obtain rfl : valueSpan = ⟨index, offset, offset + 1⟩ := placed
      exact .inl (bare '0' [] rfl (by simpa [ContextFact.spans] using inside))
    | some digits =>
      cases digits with
      | octal digits =>
        obtain rfl := placed
        have either : span = ⟨index, offset, offset + 1⟩ ∨
            span = ⟨index, offset + 1, offset + 1 + size digits⟩ := by
          simpa [ContextFact.spans] using inside
        rcases either with same | rfl
        · exact .inl (bare '0' digits rfl same)
        · exact .inl (part_extent rfl (le_refl _) (le_refl _))
      | hex digits =>
        obtain rfl := placed
        have either : span = ⟨index, offset, offset + 1⟩ ∨
            span = ⟨index, offset + 1 + 1, offset + 1 + 1 + size digits⟩ := by
          simpa [ContextFact.spans] using inside
        have marker : ('x' : Char).utf8Size = 1 := rfl
        rcases either with same | rfl
        · exact .inl (bare '0' ('x' :: digits) rfl same)
        · refine .inl (part_extent rfl (by omega) ?_)
          rw [size_cons, marker]
          omega
  | includeDirectory directory =>
    have either : span = ⟨index, offset, offset + 1⟩ ∨ span = valueSpan := by
      simpa [ContextFact.spans] using inside
    rcases either with same | rfl
    · exact .inl (bare 'I' _ rfl same)
    · exact value_extent rfl placed
  | moduleImport form spec =>
    obtain ⟨rfl, specPlaced⟩ := placed
    have ascii := form_letter form
    rcases mem_append.mp inside with own | parts
    · have either : span = ⟨index, offset, offset + 1⟩ ∨
          span = ⟨index, offset + 1, offset + 1 + size spec.text⟩ := by simpa using own
      rcases either with same | rfl
      · exact .inl (bare form.letter spec.text ascii same)
      · exact .inl (part_extent ascii (le_refl _) (le_refl _))
    · exact .inl (spec_extent ascii specPlaced parts)

section
variable {item : Item} (stands : item.StandsAt index offset)
include item stands

theorem stands_extent {span : ArgvSpan} (inside : span ∈ item.spans) :
    span.Within index offset (size item.spelling) ∨
      ∃ value, item.separate = some value ∧ span = ⟨index + 1, 0, size value⟩ := by
  cases item with
  | fragment piece =>
    obtain ⟨switch, text, valueSpan, switchSpan⟩ := piece
    obtain ⟨rfl, placed⟩ := stands
    have either : span = ⟨index, offset, offset + 1⟩ ∨ span = valueSpan := by
      simpa [Item.spans] using inside
    rcases either with rfl | rfl
    · exact .inl (letter_extent offset _ (source_letter switch))
    · exact value_extent (source_letter switch) placed
  | fact given => exact fact_extent stands inside
  | neutral use =>
    obtain ⟨switch, value, valueSpan, switchSpan⟩ := use
    obtain ⟨rfl, placed⟩ := stands
    have either : span = ⟨index, offset, offset + 1⟩ ∨ span = valueSpan := by
      simpa [Item.spans] using inside
    rcases either with rfl | rfl
    · exact .inl (letter_extent offset _ (switch_letter switch))
    cases value with
    | none =>
      obtain rfl : span = ⟨index, offset, offset + 1⟩ := placed
      exact .inl (letter_extent offset _ (switch_letter switch))
    | some value =>
      obtain rfl := placed
      exact .inl (part_extent (switch_letter switch) (le_refl _) (le_refl _))
  | unsupported switch =>
    obtain ⟨kind, spelling, own⟩ := switch
    obtain ⟨placed, -⟩ := stands
    obtain rfl : own = ⟨index, offset, offset + size spelling⟩ := placed
    obtain rfl := mem_singleton.mp inside
    exact .inl ⟨rfl, le_refl _, le_refl _⟩

theorem stands_from {span : ArgvSpan} (inside : span ∈ item.spans) : span.From index offset := by
  rcases stands_extent stands inside with there | ⟨value, -, rfl⟩
  · exact within_from there
  · exact .inl (lt_succ_self index)

theorem attached_up_to (attached : item.separate = none) {span : ArgvSpan} (inside : span ∈ item.spans) :
    span.UpTo index (offset + size item.spelling) := by
  rcases stands_extent stands inside with there | ⟨value, taken, -⟩
  · exact within_up_to there
  · rw [attached] at taken
    cases taken

theorem stands_up_to {span : ArgvSpan} (inside : span ∈ item.spans) : span.UpTo (index + 2) 0 := by
  rcases stands_extent stands inside with ⟨there, -⟩ | ⟨value, -, rfl⟩
  · left
    omega
  · exact .inl (lt_succ_self (index + 1))

end

end Extents

def Item.Ahead (left right : Item) : Prop :=
  ∀ span ∈ left.spans, ∀ other ∈ right.spans, span.Before other

def Stop.Behind (index : Nat) (span : ArgvSpan) : Stop → Prop
  | .finished next => span.UpTo next 0
  | .acted _ offset _ => span.UpTo index offset

def Stop.text : Stop → Text
  | .finished _ => []
  | .acted kind _ tail => kind.letter :: tail

section Letters
variable {argv : List Text} {index offset : Nat} {text : Text} {items : List Item} {stop : Stop}

section
variable (spelled : Spelled argv index offset text items stop)
include spelled

theorem spelled_behind {span : ArgvSpan} (front : span.UpTo index offset) : stop.Behind index span := by
  induction spelled with
  | exhausted offset | separate offset item value =>
    unfold ArgvSpan.UpTo at front
    exact .inl (by omega)
  | acted offset kind tail => exact front
  | more offset item items rest stop stands attached spelled ih =>
    apply ih
    unfold ArgvSpan.UpTo at *
    omega

theorem spelled_spans :
    ∀ item ∈ items, ∀ span ∈ item.spans, span.From index offset ∧ stop.Behind index span := by
  induction spelled with
  | exhausted offset => simp
  | acted offset kind tail => simp
  | separate offset item value stands taken found =>
    intro other member span inside
    obtain rfl := mem_singleton.mp member
    exact ⟨stands_from stands inside, stands_up_to stands inside⟩
  | more offset item items rest stop stands attached spelled ih =>
    intro other member span inside
    rcases mem_cons.mp member with rfl | later
    · have front := attached_up_to stands attached inside
      exact ⟨stands_from stands inside, spelled_behind spelled front⟩
    · obtain ⟨back, front⟩ := ih other later span inside
      exact ⟨from_behind back (le_add_right _ _), front⟩

theorem spelled_ordered : items.Pairwise Item.Ahead := by
  induction spelled with
  | exhausted offset => exact .nil
  | acted offset kind tail => exact .nil
  | separate offset item value => exact pairwise_singleton _ _
  | more offset item items rest stop stands attached spelled ih =>
    apply pairwise_cons.mpr
    refine ⟨?_, ih⟩
    intro later member span inside other there
    have back := (spelled_spans spelled later member other there).1
    exact before_across (attached_up_to stands attached inside) back

theorem spelled_sound {front : Text}
    (found : argv[index]? = some (front ++ text)) (width : size front = offset) :
    ∀ item ∈ items, item.Sound argv := by
  induction spelled generalizing front with
  | exhausted offset => simp
  | acted offset kind tail => simp
  | separate offset item value stands taken next =>
    intro other member
    obtain rfl := mem_singleton.mp member
    have whole : argv[index]? = some (front ++ (other.spelling ++ [])) := by simpa using found
    apply stands_sound stands whole width
    intro given same
    rw [taken] at same
    rw [next, same]
  | more offset item items rest stop stands attached spelled ih =>
    intro other member
    rcases mem_cons.mp member with rfl | later
    · apply stands_sound stands found width
      intro given same
      rw [attached] at same
      cases same
    · have whole : argv[index]? = some ((front ++ item.spelling) ++ rest) := by
        rw [found, append_assoc]
      have reached : size (front ++ item.spelling) = offset + size item.spelling := by
        rw [size_append, width]
      exact ih whole reached other later

theorem spelled_places : ∀ item ∈ items, item.switchSpan.argumentIndex = index ∧
      item.switchSpan.start < item.switchSpan.stop := by
  induction spelled with
  | exhausted offset => simp
  | acted offset kind tail => simp
  | separate offset item value stands =>
    intro other member
    obtain rfl := mem_singleton.mp member
    obtain ⟨same, start, stop⟩ := switch_span_stands stands
    exact ⟨same, by omega⟩
  | more offset item items rest stop stands attached spelled ih =>
    intro other member
    rcases mem_cons.mp member with rfl | later
    · obtain ⟨same, start, stop⟩ := switch_span_stands stands
      exact ⟨same, by omega⟩
    · exact ih other later

/-- The items spell the cluster, up to the letter that Perl acts on. -/
theorem spelled_text : text = items.flatMap Item.spelling ++ stop.text := by
  induction spelled with
  | exhausted offset => rfl
  | acted offset kind tail => rfl
  | separate offset item value => simp [Stop.text]
  | more offset item items rest stop stands attached spelled ih => simp [ih]

end

theorem spelled_next {next : Nat} (spelled : Spelled argv index offset text items (.finished next)) :
    next = index + 1 ∧ items.filterMap Item.separate = [] ∨
      next = index + 2 ∧ ∃ value, items.filterMap Item.separate = [value] ∧
        argv[index + 1]? = some value := by
  generalize ended : Stop.finished next = stop at spelled
  induction spelled with
  | exhausted offset =>
    cases ended
    exact .inl ⟨rfl, rfl⟩
  | acted offset kind tail => cases ended
  | separate offset item value stands taken found =>
    cases ended
    exact .inr ⟨rfl, value, by simp [taken], found⟩
  | more offset item items rest stop stands attached spelled ih =>
    rw [filterMap_cons_none attached]
    exact ih ended

theorem spelled_action {kind : TerminatingActionKind} {place : Nat} {tail : Text}
    (spelled : Spelled argv index offset text items (.acted kind place tail)) :
    ∃ front, text = front ++ kind.letter :: tail ∧ offset + size front = place := by
  generalize ended : Stop.acted kind place tail = stop at spelled
  induction spelled with
  | exhausted offset => cases ended
  | acted offset kind tail =>
    cases ended
    exact ⟨[], rfl, rfl⟩
  | separate offset item value => cases ended
  | more offset item items rest stop stands attached spelled ih =>
    obtain ⟨front, parts, width⟩ := ih ended
    refine ⟨item.spelling ++ front, by rw [parts, append_assoc], ?_⟩
    rw [size_append, ← add_assoc, width]

theorem spelled_some {next : Nat} (spelled : Spelled argv index offset text items (.finished next))
    (some : text ≠ []) : items ≠ [] := by
  intro none
  have spelling := spelled_text spelled
  rw [none] at spelling
  exact some spelling

end Letters

section Tails

def Tail.action : Tail → Option TerminatingAction
  | .long kind index => some ⟨kind, wholeArgumentSpan index kind.longSpelling⟩
  | .acted kind index offset _ => some ⟨kind, ⟨index, offset, offset + 1⟩⟩
  | _ => none

def Tail.terminator : Tail → Option ArgvSpan
  | .terminated index => some (wholeArgumentSpan index ['-', '-'])
  | _ => none

def Tail.leftover (argv : List Text) : Tail → List ProgramArgument
  | .long _ index => argumentsFrom argv (index + 1)
  | .acted _ index offset rest =>
    (if rest.isEmpty then [] else [⟨rest, ⟨index, offset + 1, offset + 1 + size rest⟩⟩]) ++
      argumentsFrom argv (index + 1)
  | _ => []

def operandsOf (argv : List Text) (index : Nat) (noFragments : Bool) :
    ProgramSource × List ProgramArgument :=
  if noFragments then
    match argv[index]? with
    | some operand =>
      (if operand = ['-'] ∨ operand.isEmpty then
        .standardInput (wholeArgumentSpan index operand)
      else .scriptFile operand (wholeArgumentSpan index operand),
        argumentsFrom argv (index + 1))
    | none => (.unspecified, argumentsFrom argv index)
  else (.commandLineFragments, argumentsFrom argv index)

structure Described (argv : List Text) (items : List Item) (tail : Tail)
    (invocation : PerlInvocation) : Prop where
  fragments : invocation.sourceFragments = items.filterMap Item.fragment?
  facts : invocation.contextFacts = items.filterMap Item.fact?
  neutrals : invocation.neutralSwitches = items.filterMap Item.neutral?
  unsupporteds : invocation.unsupportedSwitches = items.filterMap Item.unsupported?
  action : invocation.terminatingAction = tail.action
  terminator : invocation.terminator = tail.terminator
  leftover : invocation.uninterpretedArguments = tail.leftover argv
  operands : (invocation.program, invocation.programArguments) =
    if tail.action.isSome then (.notReached, [])
    else operandsOf argv tail.next invocation.sourceFragments.isEmpty

theorem operands_decoded {argv : List Text} {index : Nat} {invocation : PerlInvocation}
    (going : invocation.terminatingAction = none) :
    decodeOperands argv index invocation = { invocation with
      program := (operandsOf argv index invocation.sourceFragments.isEmpty).1
      programArguments := (operandsOf argv index invocation.sourceFragments.isEmpty).2 } := by
  unfold decodeOperands operandsOf
  rw [going, if_neg (by simp)]
  cases invocation.sourceFragments.isEmpty with
  | false => rfl
  | true =>
    cases argv[index]? with
    | none => rfl
    | some operand =>
      by_cases standard : operand = ['-'] ∨ operand.isEmpty = true
      · simp only [standard, if_true]
      · simp only [standard, if_true, if_false]

theorem decoded_described {argv : List Text} {items : List Item} {tail : Tail}
    {mark : Option ArgvSpan} {middle : PerlInvocation}
    (grown : Grows { emptyInvocation with interpreter := mark } items middle) :
    Described argv items tail (decodeOperands argv tail.next (tail.note middle)) ∧
      (decodeOperands argv tail.next (tail.note middle)).interpreter = mark := by
  have none : middle.uninterpretedArguments = [] := grown.uninterpreted
  have going : middle.terminatingAction = .none := grown.action
  cases tail with
  | operands index =>
    rw [Tail.note, operands_decoded going]
    exact ⟨⟨grown.fragments, grown.facts, grown.neutrals, grown.unsupporteds, going,
      grown.terminator, none, rfl⟩, grown.interpreter⟩
  | terminated index =>
    have still : ((Tail.terminated index).note middle).terminatingAction = .none := going
    rw [operands_decoded still]
    exact ⟨⟨grown.fragments, grown.facts, grown.neutrals, grown.unsupporteds, going,
      rfl, none, rfl⟩, grown.interpreter⟩
  | long kind index =>
    refine ⟨⟨grown.fragments, grown.facts, grown.neutrals, grown.unsupporteds, rfl,
      grown.terminator, ?_, ?_⟩, grown.interpreter⟩
    · change middle.uninterpretedArguments ++ _ = _
      rw [none]
      rfl
    · exact Prod.ext rfl grown.arguments
  | acted kind index offset rest =>
    refine ⟨⟨grown.fragments, grown.facts, grown.neutrals, grown.unsupporteds, rfl,
      grown.terminator, ?_, ?_⟩, grown.interpreter⟩
    · change (middle.uninterpretedArguments ++ _) ++ _ = _
      rw [none]
      rfl
    · exact Prod.ext rfl grown.arguments

end Tails

section Runs
variable {argv other : List Text} {index : Nat} {items more : List Item} {tail last : Tail}

theorem whole_at (found : argv[index]? = some text) : TextAt argv (wholeArgumentSpan index text) text := by
  have whole : argv[index]? = some ([] ++ text ++ []) := by simpa using found
  have there := text_at_inside whole size_nil
  rwa [zero_add] at there

theorem arguments_mem {argument : ProgramArgument} (member : argument ∈ argumentsFrom argv index) :
    index ≤ argument.span.argumentIndex ∧ TextAt argv argument.span argument.text := by
  obtain ⟨⟨text, place⟩, inside, rfl⟩ := mem_map.mp member
  have found : (argv.drop index)[place]? = some text := mk_mem_zipIdx_iff_getElem?.mp inside
  rw [getElem?_drop] at found
  exact ⟨le_add_right _ _, whole_at found⟩

theorem arguments_texts : (argumentsFrom argv index).map ProgramArgument.text = argv.drop index := by
  unfold argumentsFrom
  rw [map_map]
  exact zipIdx_map_fst 0 _

theorem arguments_determine (same : argumentsFrom argv index = argumentsFrom other index) :
    argv.drop index = other.drop index := by
  rw [← arguments_texts, same, arguments_texts]

theorem drop_found (found : argv[index]? = some text) : argv.drop index = text :: argv.drop (index + 1) := by
  obtain ⟨inside, rfl⟩ := List.getElem?_eq_some_iff.mp found
  exact drop_eq_getElem_cons inside

/-- The program tells its operand: `-` and the empty argument differ in their widths. -/
theorem program_determines {left right : Text} (same : (if left = ['-'] ∨ left.isEmpty then
        ProgramSource.standardInput (wholeArgumentSpan index left)
      else .scriptFile left (wholeArgumentSpan index left)) =
      if right = ['-'] ∨ right.isEmpty then
        ProgramSource.standardInput (wholeArgumentSpan index right)
      else .scriptFile right (wholeArgumentSpan index right)) : left = right := by
  split at same
  next standard =>
    split at same
    next other =>
      have width : size left = size right := by
        injection same with spans
        injection spans
      rcases standard with rfl | none
      · rcases other with rfl | none
        · rfl
        · rw [List.isEmpty_iff.mp none] at width
          cases width
      · rcases other with rfl | absent
        · rw [List.isEmpty_iff.mp none] at width
          cases width
        · rw [List.isEmpty_iff.mp none, List.isEmpty_iff.mp absent]
    next => cases same
  next =>
    split at same
    next => cases same
    next => exact (ProgramSource.scriptFile.inj same).1

theorem operands_determine {noFragments : Bool}
    (same : operandsOf argv index noFragments = operandsOf other index noFragments) :
    argv.drop index = other.drop index := by
  cases noFragments with
  | false => exact arguments_determine (Prod.mk.inj same).2
  | true =>
    unfold operandsOf at same
    cases found : argv[index]? with
    | none =>
      cases there : other[index]? with
      | none =>
        rw [found, there] at same
        exact arguments_determine (Prod.mk.inj same).2
      | some operand =>
        rw [found, there] at same
        have programs := (Prod.mk.inj same).1
        split at programs <;> cases programs
    | some operand =>
      cases there : other[index]? with
      | none =>
        rw [found, there] at same
        have programs := (Prod.mk.inj same).1
        split at programs <;> cases programs
      | some second =>
        rw [found, there] at same
        obtain ⟨programs, arguments⟩ := Prod.mk.inj same
        rw [drop_found found, drop_found there, program_determines programs, arguments_determine arguments]

section
variable (run : Run argv index items tail)
include run

theorem run_action {action : TerminatingAction}
    (acts : tail.action = some action) : action.span.From index 0 := by
  induction run with
  | operands index => cases acts
  | terminated index => cases acts
  | long index kind | acted index offset text rest items kind =>
    cases acts
    exact .inr ⟨rfl, zero_le _⟩
  | cluster index next text items more tail found some spelled run ih =>
    have further := ih acts
    unfold ArgvSpan.From at *
    rcases spelled_next spelled with ⟨rfl, -⟩ | ⟨rfl, -⟩ <;> omega

theorem run_spans : ∀ item ∈ items, ∀ span ∈ item.spans, span.From index 0 ∧
      ∀ action, tail.action = some action → span.Before action.span := by
  induction run with
  | operands index => simp
  | terminated index => simp
  | long index kind => simp
  | cluster index next text items more tail found some spelled run ih =>
    intro item member span inside
    rcases mem_append.mp member with here | later
    · obtain ⟨back, front⟩ := spelled_spans spelled item here span inside
      refine ⟨from_behind back (zero_le _), ?_⟩
      intro action acts
      exact before_across front (run_action run acts)
    · obtain ⟨back, front⟩ := ih item later span inside
      refine ⟨?_, front⟩
      unfold ArgvSpan.From at *
      rcases spelled_next spelled with ⟨rfl, -⟩ | ⟨rfl, -⟩ <;> omega
  | acted index offset text rest items kind found spelled =>
    intro item member span inside
    obtain ⟨back, front⟩ := spelled_spans spelled item member span inside
    refine ⟨from_behind back (zero_le _), ?_⟩
    intro action acts
    cases acts
    exact before_across front (.inr ⟨rfl, le_refl _⟩)

theorem run_ordered : items.Pairwise Item.Ahead := by
  induction run with
  | operands index => exact .nil
  | terminated index => exact .nil
  | long index kind => exact .nil
  | cluster index next text items more tail found some spelled run ih =>
    apply pairwise_append.mpr
    refine ⟨spelled_ordered spelled, ih, ?_⟩
    intro item here later there span inside second within
    have front := (spelled_spans spelled item here span inside).2
    exact before_across front (run_spans run later there second within).1
  | acted index offset text rest items kind found spelled => exact spelled_ordered spelled

end

theorem dashed (found : argv[index]? = some ('-' :: text)) :
    argv[index]? = some (['-'] ++ text) ∧ size ['-'] = 1 := ⟨found, rfl⟩

section
variable (run : Run argv index items tail)
include run

theorem run_sound : ∀ item ∈ items, item.Sound argv := by
  induction run with
  | operands index => simp
  | terminated index => simp
  | long index kind => simp
  | cluster index next text items more tail found some spelled run ih =>
    intro item member
    rcases mem_append.mp member with here | later
    · exact spelled_sound spelled (dashed found).1 (dashed found).2 item here
    · exact ih item later
  | acted index offset text rest items kind found spelled =>
    exact spelled_sound spelled (dashed found).1 (dashed found).2

/-- The action's own letter or argument, and the texts behind it. -/
theorem run_tail_sound : (∀ action, tail.action = some action → ∃ text, TextAt argv action.span text) ∧
      ∀ argument ∈ tail.leftover argv, TextAt argv argument.span argument.text := by
  induction run with
  | operands index | terminated index => simp [Tail.action, Tail.leftover]
  | long index kind found =>
    refine ⟨?_, fun argument member => (arguments_mem member).2⟩
    intro action acts
    cases acts
    exact ⟨_, whole_at found⟩
  | cluster index next text items more tail found some spelled run ih => exact ih
  | acted index offset text rest items kind found spelled =>
    obtain ⟨front, rfl, width⟩ := spelled_action spelled
    have one : kind.letter.utf8Size = 1 := by cases kind <;> rfl
    have place : size ('-' :: front) = offset := by
      rw [size_cons]
      exact width
    constructor
    · intro action acts
      cases acts
      exact ⟨_, letter_sound one (by simpa using found) place⟩
    · intro argument member
      rcases mem_append.mp member with here | later
      · split at here
        · cases here
        obtain rfl := mem_singleton.mp here
        have whole : argv[index]? = some (('-' :: front) ++ (kind.letter :: rest ++ [])) := by
          simpa using found
        exact attached_sound one whole place
      · exact (arguments_mem later).2

theorem run_switches : ∀ item ∈ items,
    index ≤ item.switchSpan.argumentIndex ∧ item.switchSpan.start < item.switchSpan.stop := by
  induction run with
  | operands index => simp
  | terminated index => simp
  | long index kind => simp
  | cluster index next text items more tail found some spelled run ih =>
    intro item member
    rcases mem_append.mp member with here | later
    · obtain ⟨same, wide⟩ := spelled_places spelled item here
      exact ⟨le_of_eq same.symm, wide⟩
    · obtain ⟨further, wide⟩ := ih item later
      rcases spelled_next spelled with ⟨rfl, -⟩ | ⟨rfl, -⟩ <;> omega
  | acted index offset text rest items kind found spelled =>
    intro item member
    obtain ⟨same, wide⟩ := spelled_places spelled item member
    exact ⟨le_of_eq same.symm, wide⟩

end

theorem front_items {here later : List Item} (inside : ∀ item ∈ here, item.switchSpan.argumentIndex = index)
    (behind : ∀ item ∈ later, index < item.switchSpan.argumentIndex) :
    (here ++ later).filter (fun item => item.switchSpan.argumentIndex = index) = here := by
  have kept : here.filter (fun item => item.switchSpan.argumentIndex = index) = here :=
    filter_eq_self.mpr (by simpa using inside)
  have dropped : later.filter (fun item => item.switchSpan.argumentIndex = index) = [] := by
    apply filter_eq_nil_iff.mpr
    intro item member
    have further := behind item member
    simp
    omega
  rw [filter_append, kept, dropped, append_nil]

theorem front_unique {here later items more : List Item}
    (inside : ∀ item ∈ here, item.switchSpan.argumentIndex = index)
    (behind : ∀ item ∈ later, index < item.switchSpan.argumentIndex)
    (second : ∀ item ∈ items, item.switchSpan.argumentIndex = index)
    (beyond : ∀ item ∈ more, index < item.switchSpan.argumentIndex)
    (same : here ++ later = items ++ more) : here = items ∧ later = more := by
  have fronts : here = items := by
    rw [← front_items inside behind, same, front_items second beyond]
  subst fronts
  exact ⟨rfl, append_cancel_left same⟩

structure Agree (argv other : List Text) (tail last : Tail) (noFragments : Bool) : Prop where
  action : tail.action = last.action
  terminator : tail.terminator = last.terminator
  leftover : tail.leftover argv = last.leftover other
  operands : tail.action = none →
    operandsOf argv tail.next noFragments = operandsOf other last.next noFragments

theorem next_behind {next : Nat} {offset : Nat}
    (spelled : Spelled argv index offset text items (.finished next)) (run : Run argv next more tail) :
    ∀ item ∈ more, index < item.switchSpan.argumentIndex := by
  intro item member
  have further := (run_switches run item member).1
  rcases spelled_next spelled with ⟨rfl, -⟩ | ⟨rfl, -⟩ <;> omega

/-- No cluster that is read to its end gives the items of one that Perl acts in. -/
theorem finished_not_acted {next place : Nat} {kind : TerminatingActionKind}
    (spelled : Spelled argv index 1 text items (.finished next)) (run : Run argv next more tail)
    (acts : tail.action = some ⟨kind, ⟨index, place, place + 1⟩⟩) : False := by
  have back := run_action run acts
  unfold ArgvSpan.From at back
  dsimp only at back
  rcases spelled_next spelled with ⟨rfl, -⟩ | ⟨rfl, -⟩ <;> omega

/-- What is not interpreted tells the rest of its cluster from the arguments behind. -/
theorem leftover_determines {kind : TerminatingActionKind} {offset : Nat} {rest behind : Text}
    (same : (Tail.acted kind index offset rest).leftover argv =
      (Tail.acted kind index offset behind).leftover other) :
    rest = behind ∧ argumentsFrom argv (index + 1) = argumentsFrom other (index + 1) := by
  have apart (lines : List Text) (text : Text) (span : ArgvSpan) (inside : span.argumentIndex = index)
      (more : List ProgramArgument) : ⟨text, span⟩ :: more ≠ argumentsFrom lines (index + 1) := by
    intro equal
    have member : ⟨text, span⟩ ∈ argumentsFrom lines (index + 1) := by
      rw [← equal]
      exact mem_cons_self
    have further := (arguments_mem member).1
    dsimp only at further
    omega
  dsimp only [Tail.leftover] at same
  by_cases none : rest = []
  · by_cases absent : behind = []
    · subst none absent
      exact ⟨rfl, same⟩
    · have some : behind.isEmpty = false := by simpa using absent
      rw [none, some] at same
      exact (apart argv behind _ rfl _ same.symm).elim
  · have some : rest.isEmpty = false := by simpa using none
    by_cases absent : behind = []
    · rw [absent, some] at same
      exact (apart other rest _ rfl _ same).elim
    have filled : behind.isEmpty = false := by simpa using absent
    rw [some, filled] at same
    obtain ⟨first, more⟩ := List.cons.inj same
    exact ⟨(ProgramArgument.mk.inj first).1, more⟩

/-- Equal items and tails that agree come from the same arguments. -/
theorem run_unique {noFragments : Bool} (first : Run argv index items tail)
    (second : Run other index items last) (agree : Agree argv other tail last noFragments) :
    argv.drop index = other.drop index := by
  induction first with
  | operands index none =>
    generalize nothing : ([] : List Item) = items at second
    cases second with
    | operands => exact operands_determine (agree.operands rfl)
    | terminated => cases agree.terminator
    | long | acted => cases agree.action
    | cluster _ next text items more _ there some spelled run =>
      exact (spelled_some spelled some (append_eq_nil_iff.mp nothing.symm).1).elim
  | terminated index found =>
    generalize nothing : ([] : List Item) = items at second
    cases second with
    | operands => cases agree.terminator
    | terminated _ there =>
      have behind : argv.drop (index + 1) = other.drop (index + 1) :=
        operands_determine (agree.operands rfl)
      rw [drop_found found, drop_found there, behind]
    | long | acted => cases agree.action
    | cluster _ next text items more _ there some spelled run =>
      exact (spelled_some spelled some (append_eq_nil_iff.mp nothing.symm).1).elim
  | long index kind found =>
    generalize nothing : ([] : List Item) = items at second
    cases second with
    | operands | terminated => cases agree.action
    | long _ otherKind there =>
      obtain ⟨same, -⟩ := TerminatingAction.mk.inj (Option.some.inj agree.action)
      subst same
      rw [drop_found found, drop_found there, arguments_determine agree.leftover]
    | cluster _ next text items more _ there some spelled run =>
      exact (spelled_some spelled some (append_eq_nil_iff.mp nothing.symm).1).elim
    | acted _ offset text rest items otherKind there spelled =>
      obtain ⟨front, -, width⟩ := spelled_action spelled
      obtain ⟨-, spans⟩ := TerminatingAction.mk.inj (Option.some.inj agree.action)
      obtain ⟨-, starts, -⟩ := ArgvSpan.mk.inj spans
      omega
  | cluster index next text items more tail found some spelled run ih =>
    generalize joined : items ++ more = all at second
    have behind := next_behind spelled run
    have inside : ∀ item ∈ items, item.switchSpan.argumentIndex = index :=
      fun item member => (spelled_places spelled item member).1
    cases second with
    | operands | terminated | long =>
      exact (spelled_some spelled some (append_eq_nil_iff.mp joined).1).elim
    | cluster _ otherNext otherText otherItems otherMore _ there filled otherSpelled otherRun =>
      have otherInside : ∀ item ∈ otherItems, item.switchSpan.argumentIndex = index :=
        fun item member => (spelled_places otherSpelled item member).1
      obtain ⟨rfl, rfl⟩ :=
        front_unique inside behind otherInside (next_behind otherSpelled otherRun) joined
      have sameText : text = otherText :=
        (spelled_text spelled).trans (spelled_text otherSpelled).symm
      subst sameText
      rw [drop_found found, drop_found there]
      congr 1
      rcases spelled_next spelled with ⟨rfl, none⟩ | ⟨rfl, value, one, taken⟩
      · rcases spelled_next otherSpelled with ⟨rfl, -⟩ | ⟨-, value, one, -⟩
        · exact ih otherRun agree
        · rw [none] at one
          cases one
      · rcases spelled_next otherSpelled with ⟨-, none⟩ | ⟨rfl, otherValue, same, otherTaken⟩
        · rw [none] at one
          cases one
        · rw [one] at same
          obtain ⟨rfl, -⟩ := List.cons.inj same
          rw [drop_found taken, drop_found otherTaken, ih otherRun agree]
    | acted _ offset otherText rest otherItems kind there otherSpelled =>
      exact (finished_not_acted spelled run agree.action).elim
  | acted index offset text rest items kind found spelled =>
    cases second with
    | operands | terminated => cases agree.action
    | long _ otherKind there =>
      obtain ⟨front, -, width⟩ := spelled_action spelled
      obtain ⟨-, spans⟩ := TerminatingAction.mk.inj (Option.some.inj agree.action)
      obtain ⟨-, starts, -⟩ := ArgvSpan.mk.inj spans
      omega
    | cluster _ next otherText otherItems more _ there some otherSpelled run =>
      exact (finished_not_acted otherSpelled run agree.action.symm).elim
    | acted _ otherOffset otherText otherRest otherItems otherKind there otherSpelled =>
      obtain ⟨same, spans⟩ := TerminatingAction.mk.inj (Option.some.inj agree.action)
      obtain ⟨-, starts, -⟩ := ArgvSpan.mk.inj spans
      subst same starts
      obtain ⟨rfl, arguments⟩ := leftover_determines agree.leftover
      have sameText : text = otherText :=
        (spelled_text spelled).trans (spelled_text otherSpelled).symm
      rw [drop_found found, drop_found there, sameText, arguments_determine arguments]

end Runs

section Whole

def PerlInvocation.switches (invocation : PerlInvocation) : List Item :=
  invocation.sourceFragments.map .fragment ++ (invocation.contextFacts.map .fact ++
    (invocation.neutralSwitches.map .neutral ++ invocation.unsupportedSwitches.map .unsupported))

def PerlInvocation.switchSpans (invocation : PerlInvocation) : List (List ArgvSpan) :=
  invocation.switches.map Item.spans ++
    invocation.terminatingAction.toList.map fun action => [action.span]

def ProgramSource.texts : ProgramSource → List (Text × Option ArgvSpan)
  | .scriptFile path span => [(path, some span)]
  | _ => []

def PerlInvocation.texts (invocation : PerlInvocation) : List (Text × Option ArgvSpan) :=
  invocation.switches.flatMap Item.texts ++ (invocation.program.texts ++
    (invocation.uninterpretedArguments ++ invocation.programArguments).map
      fun argument => (argument.text, some argument.span))

def ArgvLead.first : ArgvLead → Nat
  | .interpreter => 1
  | .switchesOnly => 0

variable {argv other : List Text} {lead otherLead : ArgvLead} {invocation : PerlInvocation}
  {items : List Item} {tail : Tail}

theorem items_perm (items : List Item) : items.Perm ((items.filterMap Item.fragment?).map .fragment ++
      ((items.filterMap Item.fact?).map .fact ++ ((items.filterMap Item.neutral?).map .neutral ++
        (items.filterMap Item.unsupported?).map .unsupported))) := by
  induction items with
  | nil => exact .nil
  | cons item items ih =>
    cases item with
    | fragment piece => exact ih.cons _
    | fact given => exact (ih.cons _).trans perm_middle.symm
    | neutral use =>
      have moved := (ih.cons (.neutral use)).trans perm_middle.symm
      exact moved.trans (perm_middle.symm.append_left _)
    | unsupported switch =>
      have moved := (ih.cons (.unsupported switch)).trans perm_middle.symm
      have further := moved.trans (perm_middle.symm.append_left _)
      exact further.trans ((perm_middle.symm.append_left _).append_left _)

theorem switches_perm (described : Described argv items tail invocation) :
    items.Perm invocation.switches := by
  unfold PerlInvocation.switches
  rw [described.fragments, described.facts, described.neutrals, described.unsupporteds]
  exact items_perm items

theorem decode_run (decoded : decode argv lead = .ok invocation) :
    ∃ items tail, Run argv lead.first items tail ∧ Described argv items tail invocation ∧
      (invocation.interpreter.isSome ↔ lead = .interpreter) ∧
      (lead = .interpreter → ∃ first rest, argv = first :: rest) := by
  have described {start next : Nat} {mark : Option ArgvSpan} {after : PerlInvocation}
      (read : decodeSwitches argv start { emptyInvocation with interpreter := mark } = .ok (next, after)) :
      ∃ items tail, Run argv start items tail ∧ Described argv items tail (decodeOperands argv next after) ∧
        (decodeOperands argv next after).interpreter = mark := by
    obtain ⟨items, tail, middle, run, grown, rfl, rfl⟩ := switches_run rfl read
    exact ⟨items, tail, run, decoded_described grown⟩
  unfold decode at decoded
  cases lead with
  | interpreter =>
    cases argv with
    | nil => cases decoded
    | cons first rest =>
      dsimp only [List.head?] at decoded
      split at decoded
      next => cases decoded
      next next after read =>
        obtain rfl := Except.ok.inj decoded
        obtain ⟨items, tail, run, said, mark⟩ := described read
        exact ⟨items, tail, run, said, by simp [mark], fun _ => ⟨first, rest, rfl⟩⟩
  | switchesOnly =>
    dsimp only at decoded
    split at decoded
    next => cases decoded
    next next after read =>
      obtain rfl := Except.ok.inj decoded
      have fresh : decodeSwitches argv 0 { emptyInvocation with interpreter := none } =
          .ok (next, after) := read
      obtain ⟨items, tail, run, said, mark⟩ := described fresh
      exact ⟨items, tail, run, said, by simp [mark], nofun⟩

theorem operand_texts {index : Nat} {noFragments : Bool} {program : ProgramSource}
    {arguments : List ProgramArgument} (read : (program, arguments) = operandsOf argv index noFragments) :
    (∀ text span, (text, span) ∈ program.texts → ∃ place, span = some place ∧ TextAt argv place text) ∧
    ∀ argument ∈ arguments, TextAt argv argument.span argument.text := by
  unfold operandsOf at read
  split at read
  next =>
    split at read
    next operand found =>
      obtain ⟨rfl, rfl⟩ := Prod.mk.inj read
      refine ⟨?_, fun argument member => (arguments_mem member).2⟩
      intro text span inside
      split at inside
      · cases inside
      · obtain ⟨rfl, rfl⟩ := Prod.mk.inj (mem_singleton.mp inside)
        exact ⟨_, rfl, whole_at found⟩
    next =>
      obtain ⟨rfl, rfl⟩ := Prod.mk.inj read
      exact ⟨nofun, fun argument member => (arguments_mem member).2⟩
  next =>
    obtain ⟨rfl, rfl⟩ := Prod.mk.inj read
    exact ⟨nofun, fun argument member => (arguments_mem member).2⟩

section
variable {index : Nat} (run : Run argv index items tail)
    (described : Described argv items tail invocation)
include index run described

theorem texts_sound {text : Text} {span : Option ArgvSpan} (inside : (text, span) ∈ invocation.texts) :
    ∃ place, span = some place ∧ TextAt argv place text := by
  have operands : (∀ text span, (text, span) ∈ invocation.program.texts →
      ∃ place, span = some place ∧ TextAt argv place text) ∧
      ∀ argument ∈ invocation.programArguments, TextAt argv argument.span argument.text := by
    have read := described.operands
    split at read
    · obtain ⟨program, arguments⟩ := Prod.mk.inj read
      rw [program, arguments]
      exact ⟨nofun, nofun⟩
    · exact operand_texts read
  rcases mem_append.mp inside with switch | behind
  · obtain ⟨item, member, there⟩ := mem_flatMap.mp switch
    have recorded := (switches_perm described).mem_iff.mpr member
    exact (run_sound run item recorded).texts text span there
  rcases mem_append.mp behind with program | rest
  · exact operands.1 text span program
  obtain ⟨argument, member, same⟩ := mem_map.mp rest
  obtain ⟨rfl, rfl⟩ := Prod.mk.inj same
  refine ⟨_, rfl, ?_⟩
  rcases mem_append.mp member with left | given
  · rw [described.leftover] at left
    exact (run_tail_sound run).2 argument left
  · exact operands.2 argument given

theorem switch_spans_sound {spans : List ArgvSpan}
    (member : spans ∈ invocation.switchSpans) {span : ArgvSpan} (inside : span ∈ spans) :
    ∃ text, TextAt argv span text := by
  rcases mem_append.mp member with switch | acts
  · obtain ⟨item, there, rfl⟩ := mem_map.mp switch
    have recorded := (switches_perm described).mem_iff.mpr there
    exact (run_sound run item recorded).spans span inside
  rw [described.action] at acts
  obtain ⟨action, there, rfl⟩ := mem_map.mp acts
  obtain rfl := mem_singleton.mp inside
  exact (run_tail_sound run).1 action (Option.mem_toList.mp there)

theorem switch_spans_apart : invocation.switchSpans.Pairwise
      (fun left right => ∀ span ∈ left, ∀ second ∈ right, span.Apart second) := by
  apply pairwise_append.mpr
  refine ⟨?_, ?_, ?_⟩
  · apply pairwise_map.mpr
    have ordered : items.Pairwise fun left right =>
        ∀ span ∈ left.spans, ∀ second ∈ right.spans, span.Apart second :=
      (run_ordered run).imp fun ahead span inside second there =>
        .inl (ahead span inside second there)
    apply (switches_perm described).pairwise ordered
    intro left right apart span inside second there
    exact (apart second there span inside).symm
  · cases invocation.terminatingAction with
    | none => exact .nil
    | some action => exact pairwise_singleton _ _
  · intro left switch right acts span inside second there
    obtain ⟨item, member, rfl⟩ := mem_map.mp switch
    rw [described.action] at acts
    obtain ⟨action, given, rfl⟩ := mem_map.mp acts
    obtain rfl := mem_singleton.mp there
    have recorded := (switches_perm described).mem_iff.mpr member
    exact .inl ((run_spans run item recorded span inside).2 action (Option.mem_toList.mp given))

end

theorem same_items {index : Nat} {more : List Item} {last : Tail}
    (run : Run argv index items tail) (described : Described argv items tail invocation)
    (second : Run other index more last) (too : Described other more last invocation) : items = more := by
  apply List.Perm.eq_of_pairwise _ (run_ordered run) (run_ordered second)
    ((switches_perm described).trans (switches_perm too).symm)
  intro left right here there ahead back
  have front := ahead _ (switch_span_mem left) _ (switch_span_mem right)
  have behind := back _ (switch_span_mem right) _ (switch_span_mem left)
  have wide := (run_switches run left here).2
  have broad := (run_switches second right there).2
  unfold ArgvSpan.Before at front behind
  omega

theorem decode_injective (decoded : decode argv lead = .ok invocation)
    (again : decode other otherLead = .ok invocation)
    (interpreter : lead = .interpreter → other.head? = argv.head?) : other = argv := by
  obtain ⟨items, tail, run, described, marked, leads⟩ := decode_run decoded
  obtain ⟨more, last, second, too, otherMarked, otherLeads⟩ := decode_run again
  have sameLead : otherLead = lead := by
    have iff : otherLead = .interpreter ↔ lead = .interpreter := otherMarked.symm.trans marked
    cases lead <;> cases otherLead <;> simp at iff ⊢
  subst sameLead
  have same := same_items run described second too
  subst same
  have agree : Agree argv other tail last invocation.sourceFragments.isEmpty := by
    refine ⟨described.action.symm.trans too.action, described.terminator.symm.trans too.terminator,
      described.leftover.symm.trans too.leftover, ?_⟩
    intro going
    have left := described.operands
    have right := too.operands
    rw [going] at left
    rw [← too.action, described.action, going] at right
    exact left.symm.trans right
  have behind := run_unique run second agree
  cases otherLead with
  | interpreter =>
    obtain ⟨first, rest, rfl⟩ := leads rfl
    obtain ⟨otherFirst, otherRest, rfl⟩ := otherLeads rfl
    have heads := Option.some.inj (interpreter rfl)
    have rests : rest = otherRest := behind
    rw [heads, rests]
  | switchesOnly => exact behind.symm

/-- Every recorded text is the slice its span names, the spans of different switches have no byte in
common, and no other arguments are decoded to the same invocation. -/
theorem decode_lossless (decoded : decode argv lead = .ok invocation) :
    (∀ text span, (text, span) ∈ invocation.texts →
      ∃ place, span = some place ∧ TextAt argv place text) ∧
    (∀ spans ∈ invocation.switchSpans, ∀ span ∈ spans, ∃ text, TextAt argv span text) ∧
    invocation.switchSpans.Pairwise
      (fun left right => ∀ span ∈ left, ∀ second ∈ right, span.Apart second) ∧
    ∀ other otherLead, decode other otherLead = .ok invocation →
      (lead = .interpreter → other.head? = argv.head?) → other = argv := by
  obtain ⟨items, tail, run, described, -⟩ := decode_run decoded
  refine ⟨?_, ?_, switch_spans_apart run described, ?_⟩
  · intro text span inside
    exact texts_sound run described inside
  · intro spans member span inside
    exact switch_spans_sound run described member inside
  · intro other otherLead again interpreter
    exact decode_injective decoded again interpreter

def sampleArguments : List Text := [['-', 'n', 'e'], ['x']]

def sampleInvocation : PerlInvocation :=
  { emptyInvocation with
    contextFacts := [⟨.readLoop, ⟨0, 1, 2⟩, ⟨0, 1, 2⟩⟩]
    sourceFragments := [⟨.e, ['x'], ⟨1, 0, 1⟩, ⟨0, 2, 3⟩⟩]
    program := .commandLineFragments }

theorem decode_lossless_sample : decode sampleArguments .switchesOnly = .ok sampleInvocation ∧
    ∀ other otherLead, decode other otherLead = .ok sampleInvocation → other = sampleArguments := by
  have decoded : decode sampleArguments .switchesOnly = .ok sampleInvocation := by decide +kernel
  refine ⟨decoded, ?_⟩
  intro other otherLead again
  exact (decode_lossless decoded).2.2.2 other otherLead again nofun

end Whole

end PerlLsp.CommandLine
