import PerlLsp.Document
import PerlLsp.Text

/-! `handle_did_change_with_version_policy` of runtime/text_sync.rs with the admission of
runtime/v0_18_text_sync_envelope.rs: how didChange frames, and the text of didSave frames, move the
stored document. The parse worker accepts every enqueue, so the synchronous fallback is not reached.
Readiness records, diagnostics, symbols and stream cancellation are left out. URL parsing, the
deserialization of a change event, and the binary probe are in `Env`. -/
namespace PerlLsp.TextSync
open Document Utf8 List

section Json

-- `float` stands for every number that is neither a u64 nor an i64.
inductive Number where
  | posInt (value : UInt64)
  | negInt (value : Int64)
  | float

def Number.asI64 : Number → Option Int
  | .posInt value => if value.toNat < 2 ^ 63 then some value.toNat else none
  | .negInt value => some value.toInt
  | .float => none

inductive Value where
  | null
  | bool (value : Bool)
  | number (value : Number)
  | string (text : List Char)
  | array (items : List Value)
  | object (fields : List (String × Value))

def Value.get (value : Value) (key : String) : Option Value :=
  match value with
  | .object fields => (fields.find? fun field => field.1 == key).map Prod.snd
  | _ => none

def Value.asStr : Value → Option (List Char)
  | .string text => some text
  | _ => none

def Value.asI64 : Value → Option Int
  | .number value => value.asI64
  | _ => none

-- `pointer("/outer/inner")`; neither token is an array index
def Value.pointer (value : Value) (outer inner : String) : Option Value :=
  (value.get outer).bind fun nested => nested.get inner

/-- `i32::try_from(v).ok()` -/
def i32TryFrom (value : Int) : Option Int32 :=
  if -2 ^ 31 ≤ value ∧ value < 2 ^ 31 then some (Int32.ofInt value) else none

/-- `saturating_add(1)` -/
def saturatingSucc (version : Int32) : Int32 :=
  if version = Int32.maxValue then version else version + 1

theorem le_saturating_succ (version : Int32) : version ≤ saturatingSucc version := by
  unfold saturatingSucc
  split
  · exact Int32.le_refl version
  rename_i below
  have upper := Int32.toInt_lt version
  have notMax : version.toInt ≠ 2147483647 := by
    intro same
    apply below
    apply Int32.toInt_inj.mp
    rw [same]
    decide
  have one : (1 : Int32).toInt = 1 := by decide
  rw [Int32.le_iff_toInt_le, Int32.toInt_add, Int.bmod_def]
  omega

end Json

structure Env where
  uriKey : List Char → List Char
  /-- `serde_json::from_value::<TextDocumentContentChangeEvent>`, of whose result
  only the text is used. -/
  changeEventText : Value → Option (List Char)
  isBinaryContent : List Char → Bool

/-- One call of the handler; `sizeLimit` is `max_file_size_bytes()` at that time. -/
structure Frame where
  params : Option Value
  allowSameVersion : Bool
  sizeLimit : Nat

def didChange (params : Option Value) (sizeLimit : Nat) : Frame := ⟨params, false, sizeLimit⟩

def didSave (uri text : List Char) (version : Int32) (sizeLimit : Nat) : Frame :=
  let number : Number :=
    if 0 ≤ version.toInt then .posInt (UInt64.ofNat version.toInt.toNat)
    else .negInt (Int64.ofInt version.toInt)
  { params := some (.object
      [("textDocument", .object [("uri", .string uri), ("version", .number number)]),
        ("contentChanges", .array [.object [("text", .string text)]])])
    allowSameVersion := true
    sizeLimit := sizeLimit }

section Uris

def allowedTextDocumentUriSchemes : List (List Char) :=
  ["file://".toList, "untitled:".toList, "opencode:".toList, "vscode-notebook-cell:".toList]

def maxUriLength : Nat := 4096

def validateDocumentUri (uri : List Char) : Except String Unit :=
  if !allowedTextDocumentUriSchemes.any fun scheme => scheme.isPrefixOf uri then
    .error ("Invalid URI scheme: " ++ String.ofList uri)
  else if maxUriLength < size uri then .error ("URI too long: " ++ String.ofList uri)
  else .ok ()

def templateExtensions : List (List Char) := [['e', 'p'], ['t', 't'], ['t', 't', '2'],
  ['m', 'a', 's', 'o', 'n']]

def uriExtension (uri : List Char) : Option (List Char) :=
  let path := uri.takeWhile fun scalar => !(scalar == '?' || scalar == '#')
  let part := path.rtakeWhile fun scalar => !(scalar == '/' || scalar == '\\')
  if part.contains '.' then
    let ext := part.rtakeWhile fun scalar => scalar != '.'
    -- the dot at index 0 is a dotfile's
    if ext.length + 1 = part.length then none
    else if ext.isEmpty then none else some ext
  else none

def isEmbeddedTemplateUri (uri : List Char) : Bool :=
  match uriExtension uri with
  | some ext => templateExtensions.any fun known => Text.eqIgnoreAsciiCase known ext
  | none => false

end Uris

section Admission
variable (env : Env)

def stripUtf8Bom (text : List Char) : List Char :=
  match text with
  | scalar :: rest => if scalar = Char.ofNat 0xFEFF then rest else text
  | [] => []

def maxLineLength : Nat := 100000

def validateBufferLineLengths (text : List Char) : Except String Unit :=
  if (Text.lines text).any fun line => maxLineLength < line.length then
    .error "Buffer contains a line longer than 100000 characters"
  else .ok ()

inductive FullDocumentAdmission where
  | accepted (replacements : List (List Char))
  | violation (reason : String) (changeIndex : Option Nat)

def invalidContentChange : String := "invalid_content_change"

-- The loop over `changes.iter().enumerate()`.
def admitMembers : Nat → List (List Char) → List Value → FullDocumentAdmission
  | _, replacements, [] => .accepted replacements
  | index, replacements, change :: rest =>
    match env.changeEventText change with
    | some text =>
      if (change.get "range").isNone ∧ (change.get "rangeLength").isNone then
        admitMembers (index + 1) (replacements ++ [stripUtf8Bom text]) rest
      else
        .violation "ranged contentChanges are unsupported under advertised Full text sync"
          (some index)
    | none =>
      .violation "malformed contentChanges member; no partial text was committed" (some index)

def admitFullDocumentChanges (changes : List Value) : FullDocumentAdmission :=
  if changes.isEmpty then
    .violation "contentChanges must contain at least one full-document replacement" none
  else admitMembers env 0 [] changes

def finalFullReplacementText (replacements : List (List Char)) : Option (List Char) :=
  replacements.getLast?

def tryForEach {Item : Type} (check : Item → Except String Unit) : List Item → Except String Unit
  | [] => .ok ()
  | item :: rest =>
    match check item with
    | .ok () => tryForEach check rest
    | .error error => .error error

/-- Why a frame cannot be stored: reason, member index, error category. -/
abbrev Unavailable := String × Option Nat × Option String

def admittedOrUnavailable (changes : List Value) : Except Unavailable (List Char) :=
  match admitFullDocumentChanges env changes with
  | .accepted replacements =>
    match tryForEach validateBufferLineLengths replacements with
    | .ok () => .ok ((finalFullReplacementText replacements).getD [])
    | .error _ => .error ("admitted full replacement exceeds per-line buffer bound", none, none)
  | .violation reason changeIndex => .error (reason, changeIndex, some invalidContentChange)

end Admission

section Handler
variable {Ast ParseError : Type} (env : Env)

abbrev Documents (Ast ParseError : Type) := List Char → Option (DocumentState Ast ParseError)

def insert (documents : Documents Ast ParseError) (key : List Char)
    (doc : DocumentState Ast ParseError) : Documents Ast ParseError :=
  fun other => if other = key then some doc else documents other

def documentUri (params : Value) : Option (List Char) :=
  (params.pointer "textDocument" "uri").bind Value.asStr

def incomingVersion (params : Value) : Option Int32 :=
  ((params.pointer "textDocument" "version").bind Value.asI64).bind i32TryFrom

def contentChanges (params : Value) : List Value :=
  match params.get "contentChanges" with
  | some (.array items) => items
  | _ => []

def isStale (incoming : Option Int32) (allowSameVersion : Bool) (stored : Int32) : Bool :=
  match incoming with
  | some version => version < stored || (!allowSameVersion && version == stored)
  | none => false

def emptyState (version : Int32) : DocumentState Ast ParseError := .new [] version

def skipTemplateParse (uri : List Char) (doc : DocumentState Ast ParseError) : Bool :=
  isEmbeddedTemplateUri uri &&
    (doc.latestParsed.map fun snapshot => snapshot.degradationTier).getD .minimal == .minimal

def minimalStateFromRope (rope : PositionConvert.Rope) (text : List Char) (version : Int32)
    (generation : UInt32) : DocumentState Ast ParseError := .fromParts rope text version generation

def refused (incoming : Option Int32) (doc : DocumentState Ast ParseError) :
    DocumentState Ast ParseError :=
  let observed := match incoming with
    | some version => doc.observeChangeVersion version
    | none => doc
  observed.markFullSyncRequired

/-- The state stored for an admitted frame. The three guards keep the document without a parse; else
the worker takes the text. -/
def committed (uri : List Char) (sizeLimit : Nat) (version : Int32) (text : List Char)
    (doc : DocumentState Ast ParseError) : DocumentState Ast ParseError :=
  let next := doc.clearFullSyncRequired.bumpGeneration
  let rope := ropeFromStr text
  if skipTemplateParse uri doc then minimalStateFromRope rope text version next.generation
  else if sizeLimit < size text then minimalStateFromRope rope text version next.generation
  else if env.isBinaryContent text then minimalStateFromRope rope text version next.generation
  else next.replaceTextState rope text version

variable (documents : Documents Ast ParseError)

def handleDidChangeWithVersionPolicy (frame : Frame) : Documents Ast ParseError × Except String Unit :=
  match frame.params with
  | none => (documents, .ok ())
  | some params =>
    match documentUri params with
    | none => (documents, .error "Missing required parameter: textDocument.uri")
    | some uri =>
      let normalizedUri := env.uriKey uri
      match validateDocumentUri normalizedUri with
      | .error error => (documents, .error error)
      | .ok () =>
        let incoming := incomingVersion params
        let changes := contentChanges params
        let existingDoc := (documents normalizedUri).or (documents uri)
        if existingDoc.isNone ∧ (changes.all fun change => (change.get "range").isSome) then
          (documents, .ok ())
        else
          let doc := existingDoc.getD (emptyState (incoming.getD 0))
          if isStale incoming frame.allowSameVersion doc.version then (documents, .ok ())
          else
            let version := incoming.getD (saturatingSucc doc.version)
            match admittedOrUnavailable env changes with
            | .error _ =>
              if existingDoc.isNone then (documents, .ok ())
              else (insert documents normalizedUri (refused incoming doc), .ok ())
            | .ok text =>
              (insert documents normalizedUri
                (committed env uri frame.sizeLimit version text doc), .ok ())

def step (frame : Frame) : Documents Ast ParseError :=
  (handleDidChangeWithVersionPolicy env documents frame).1

end Handler

section Frames
variable {Ast ParseError : Type} (env : Env)

def addressee (frame : Frame) : Option (List Char) := do
  let params ← frame.params
  let uri ← documentUri params
  match validateDocumentUri (env.uriKey uri) with
  | .ok () => some (env.uriKey uri)
  | .error _ => none

def explicitVersion (frame : Frame) : Option Int32 := frame.params.bind incomingVersion

def Stale (frame : Frame) (stored : Int32) : Prop :=
  ∃ version, explicitVersion frame = some version ∧
    (version < stored ∨ (frame.allowSameVersion = false ∧ version = stored))

def Bounded (text : List Char) : Prop := ∀ line ∈ Text.lines text, line.length ≤ maxLineLength

instance (text : List Char) : Decidable (Bounded text) :=
  inferInstanceAs (Decidable (∀ line ∈ Text.lines text, line.length ≤ maxLineLength))

/-- The text of an unranged complete replacement, without its byte order mark. -/
def memberText (member : Value) : Option (List Char) :=
  if (member.get "range").isNone ∧ (member.get "rangeLength").isNone then
    (env.changeEventText member).map stripUtf8Bom
  else none

def replacement (frame : Frame) : Option (List Char) :=
  match frame.params.bind fun params => params.get "contentChanges" with
  | some (.array members) =>
    (members.mapM (memberText env)).bind fun texts =>
      if ∀ text ∈ texts, Bounded text then texts.getLast? else none
  | _ => none

inductive Violation (frame : Frame) : Prop where
  | missing (absent : ∀ members,
      (frame.params.bind fun params => params.get "contentChanges") ≠ some (.array members))
  | empty (found :
      (frame.params.bind fun params => params.get "contentChanges") = some (.array []))
  | member (members : List Value) (bad : Value)
      (found : (frame.params.bind fun params => params.get "contentChanges") =
        some (.array members))
      (among : bad ∈ members)
      (wrong : (bad.get "range").isSome ∨ (bad.get "rangeLength").isSome ∨
        env.changeEventText bad = none ∨
        ∃ text, env.changeEventText bad = some text ∧ ¬Bounded (stripUtf8Bom text))

theorem mapM_member {Item Result : Type} {f : Item → Option Result} {items : List Item}
    {results : List Result} (all : items.mapM f = some results) {item : Item}
    (among : item ∈ items) : ∃ result ∈ results, f item = some result := by
  induction items generalizing results with
  | nil => cases among
  | cons head rest ih =>
    simp only [mapM_cons, Option.bind_eq_bind, Option.pure_def, Option.bind_eq_some_iff,
      Option.some.injEq] at all
    obtain ⟨first, taken, tail, tailTaken, rfl⟩ := all
    rcases mem_cons.mp among with rfl | later
    · exact ⟨first, mem_cons_self, taken⟩
    · obtain ⟨result, held, found⟩ := ih tailTaken later
      exact ⟨result, mem_cons_of_mem _ held, found⟩

theorem violation_no_replacement (frame : Frame) (violation : Violation env frame) :
    replacement env frame = none := by
  unfold replacement
  cases violation with
  | missing absent =>
    split
    · next members found => exact absurd found (absent members)
    · rfl
  | empty found => simp [found]
  | member members bad found among wrong =>
    simp only [found]
    cases all : members.mapM (memberText env) with
    | none => rfl
    | some texts =>
      obtain ⟨text, held, taken⟩ := mapM_member all among
      have unranged : (bad.get "range").isNone ∧ (bad.get "rangeLength").isNone := by
        by_contra ranged
        rw [memberText, if_neg ranged] at taken
        cases taken
      rw [memberText, if_pos unranged] at taken
      rcases wrong with range | rangeLength | malformed | ⟨raw, parsed, long⟩
      · simp [Option.isNone_iff_eq_none.mp unranged.1] at range
      · simp [Option.isNone_iff_eq_none.mp unranged.2] at rangeLength
      · simp [malformed] at taken
      · obtain rfl : stripUtf8Bom raw = text := by simpa [parsed] using taken
        exact if_neg fun every => long (every _ held)

/-- The loop accepts exactly the members that all have a text, in order. -/
theorem admit_members_cases (index : Nat) (replacements : List (List Char)) (members : List Value) :
    (∃ texts, members.mapM (memberText env) = some texts ∧
      admitMembers env index replacements members = .accepted (replacements ++ texts)) ∨
    (members.mapM (memberText env) = none ∧
      ∃ reason position, admitMembers env index replacements members = .violation reason position) := by
  induction members generalizing index replacements with
  | nil => exact .inl ⟨[], rfl, by rw [admitMembers, append_nil]⟩
  | cons member rest ih =>
    rw [admitMembers, mapM_cons]
    cases parsed : env.changeEventText member with
    | none => exact .inr ⟨by simp [memberText, parsed], _, _, rfl⟩
    | some text =>
      by_cases unranged : (member.get "range").isNone ∧ (member.get "rangeLength").isNone
      · have taken : memberText env member = some (stripUtf8Bom text) := by
          rw [memberText, if_pos unranged, parsed]
          rfl
        simp only [if_pos unranged, taken, Option.bind_eq_bind, Option.bind_some]
        obtain ⟨texts, all, result⟩ | ⟨none, violation⟩ :=
          ih (index + 1) (replacements ++ [stripUtf8Bom text])
        · refine .inl ⟨stripUtf8Bom text :: texts, by rw [all]; rfl, ?_⟩
          rw [result, append_assoc]
          rfl
        · exact .inr ⟨by rw [none]; rfl, violation⟩
      · have dropped : memberText env member = none := by rw [memberText, if_neg unranged]
        simp only [if_neg unranged, dropped]
        exact .inr ⟨rfl, _, _, rfl⟩

theorem validate_buffer_ok (text : List Char) : validateBufferLineLengths text = .ok () ↔ Bounded text := by
  unfold validateBufferLineLengths Bounded
  split
  · next long =>
      simp only [any_eq_true, decide_eq_true_eq] at long
      obtain ⟨line, among, tooLong⟩ := long
      constructor
      · intro impossible
        cases impossible
      · intro bounded
        exact absurd (bounded line among) (Nat.not_le.mpr tooLong)
  · next short =>
      refine iff_of_true rfl ?_
      intro line among
      by_contra tooLong
      apply short
      exact any_eq_true.mpr ⟨line, among, decide_eq_true (Nat.lt_of_not_le tooLong)⟩

theorem try_for_each_ok {Item : Type} (check : Item → Except String Unit) (items : List Item) :
    tryForEach check items = .ok () ↔ ∀ item ∈ items, check item = .ok () := by
  induction items with
  | nil => simp [tryForEach]
  | cons item rest ih =>
    rw [tryForEach, forall_mem_cons, ← ih]
    cases check item with
    | ok done => simp
    | error reason => simp

/-- The code's admission is the declarative reading of the frame. -/
theorem admitted_iff (params : Value) (frame : Frame) (given : frame.params = some params)
    (text : List Char) : admittedOrUnavailable env (contentChanges params) = .ok text ↔
      replacement env frame = some text := by
  unfold replacement contentChanges
  rw [given, Option.bind_some]
  split
  · next members found =>
      unfold admittedOrUnavailable admitFullDocumentChanges
      cases members with
      | nil => simp
      | cons first rest =>
        simp only [isEmpty_cons, Bool.false_eq_true, if_false]
        obtain ⟨texts, all, result⟩ | ⟨none, reason, position, result⟩ :=
          admit_members_cases env 0 [] (first :: rest)
        · rw [result, all, nil_append]
          have nonempty : texts ≠ [] := by
            intro empty
            obtain ⟨held, among, -⟩ := mapM_member all mem_cons_self
            rw [empty] at among
            cases among
          have final := getLast?_eq_some_getLast nonempty
          simp only [Option.bind_some, finalFullReplacementText, final, Option.getD_some]
          by_cases bounded : ∀ text ∈ texts, Bounded text
          · have passes : tryForEach validateBufferLineLengths texts = .ok () :=
              (try_for_each_ok _ _).mpr fun text among =>
                (validate_buffer_ok text).mpr (bounded text among)
            rw [passes, if_pos bounded]
            simp
          · have fails : tryForEach validateBufferLineLengths texts ≠ .ok () := fun passes =>
              bounded fun text among =>
                (validate_buffer_ok text).mp ((try_for_each_ok _ _).mp passes text among)
            rw [if_neg bounded]
            cases outcome : tryForEach validateBufferLineLengths texts with
            | ok done => exact absurd outcome fails
            | error reason => simp
        · rw [result, none]
          simp
  · simp [admittedOrUnavailable, admitFullDocumentChanges]

theorem stale_iff (frame : Frame) (params : Value) (given : frame.params = some params) (stored : Int32) :
    isStale (incomingVersion params) frame.allowSameVersion stored = true ↔ Stale frame stored := by
  unfold Stale explicitVersion isStale
  rw [given, Option.bind_some]
  cases incomingVersion params with
  | none => simp
  | some version => simp

section
variable (documents : Documents Ast ParseError)
include documents

theorem insert_same (key : List Char)
    (doc : DocumentState Ast ParseError) : insert documents key doc key = some doc := if_pos rfl

theorem insert_other {key other : List Char} (doc : DocumentState Ast ParseError) (apart : other ≠ key) :
    insert documents key doc other = documents other := if_neg apart

/-- A frame touches no document but the one it is addressed to. -/
theorem step_elsewhere (frame : Frame) (key : List Char) (elsewhere : addressee env frame ≠ some key) :
    step env documents frame key = documents key := by
  unfold step handleDidChangeWithVersionPolicy
  unfold addressee at elsewhere
  cases given : frame.params with
  | none => rfl
  | some params =>
    simp only [given, Option.bind_eq_bind] at elsewhere ⊢
    cases located : documentUri params with
    | none => rfl
    | some uri =>
      simp only [located, Option.bind_some] at elsewhere ⊢
      cases valid : validateDocumentUri (env.uriKey uri) with
      | error reason => rfl
      | ok done =>
        simp only [valid] at elsewhere ⊢
        have apart : key ≠ env.uriKey uri := fun same => elsewhere (by rw [same])
        split
        · rfl
        split
        · rfl
        split
        · split
          · rfl
          · exact insert_other documents _ apart
        · exact insert_other documents _ apart

/-- What a frame does to the open document it is addressed to. -/
theorem step_cases (frame : Frame) (key : List Char)
    (doc : DocumentState Ast ParseError) (addressed : addressee env frame = some key)
    (opened : documents key = some doc) : (Stale frame doc.version ∧ step env documents frame = documents) ∨
    (¬Stale frame doc.version ∧ replacement env frame = none ∧
      step env documents frame = insert documents key (refused (explicitVersion frame) doc)) ∨
    (¬Stale frame doc.version ∧ ∃ text uri, replacement env frame = some text ∧
      step env documents frame = insert documents key (committed env uri frame.sizeLimit
          ((explicitVersion frame).getD (saturatingSucc doc.version)) text doc)) := by
  unfold addressee at addressed
  cases given : frame.params with
  | none => simp [given] at addressed
  | some params =>
    cases located : documentUri params with
    | none => simp [given, located] at addressed
    | some uri =>
      cases valid : validateDocumentUri (env.uriKey uri) with
      | error reason => simp [given, located, valid] at addressed
      | ok done =>
        obtain rfl : env.uriKey uri = key := by
          simpa [given, located, valid] using addressed
        have version : explicitVersion frame = incomingVersion params := by
          rw [explicitVersion, given, Option.bind_some]
        rw [version]
        unfold step handleDidChangeWithVersionPolicy
        simp only [given, located, valid, opened, Option.some_or, Option.isNone_some,
          Bool.false_eq_true, false_and, if_false, Option.getD_some]
        by_cases stale : Stale frame doc.version
        · exact .inl ⟨stale, by rw [if_pos ((stale_iff frame params given _).mpr stale)]⟩
        rw [if_neg fun late => stale ((stale_iff frame params given _).mp late)]
        have admission := admitted_iff env params frame given
        cases outcome : admittedOrUnavailable env (contentChanges params) with
        | error reason =>
          refine .inr (.inl ⟨stale, ?_, rfl⟩)
          cases replaced : replacement env frame with
          | none => rfl
          | some text =>
            rw [(admission text).mpr replaced] at outcome
            cases outcome
        | ok text =>
          exact .inr (.inr ⟨stale, text, uri, (admission text).mp outcome, rfl⟩)

end

section StoredStates
variable (doc : DocumentState Ast ParseError)
variable (incoming : Option Int32)

theorem refused_same_text : DocumentState.SameText doc (refused incoming doc) := by
  cases incoming with
  | none => exact doc.mark_same_text
  | some version =>
    exact (doc.observe_same_text version).trans (doc.observeChangeVersion version).mark_same_text

theorem refused_version : doc.version ≤ (refused incoming doc).version := by
  cases incoming with
  | none => exact doc.mark_version ▸ Int32.le_refl _
  | some version =>
    change doc.version ≤ (doc.observeChangeVersion version).markFullSyncRequired.version
    rw [DocumentState.mark_version]
    exact doc.observe_version_le version

theorem refused_required : (refused incoming doc).fullSyncRequired = true := by
  cases incoming with
  | none => exact doc.mark_required
  | some version => exact (doc.observeChangeVersion version).mark_required

theorem committed_holds (uri : List Char) (sizeLimit : Nat) (version : Int32) (text : List Char) :
    (committed env uri sizeLimit version text doc).text = text ∧
    (committed env uri sizeLimit version text doc).version = version ∧
    (committed env uri sizeLimit version text doc).fullSyncRequired = false ∧
    (committed env uri sizeLimit version text doc).Synced := by
  unfold committed
  split
  · exact ⟨rfl, rfl, rfl, DocumentState.from_parts_synced text version _⟩
  split
  · exact ⟨rfl, rfl, rfl, DocumentState.from_parts_synced text version _⟩
  · split
    · exact ⟨rfl, rfl, rfl, DocumentState.from_parts_synced text version _⟩
    · exact ⟨rfl, rfl, rfl, DocumentState.replace_text_state_synced _ text version⟩

end StoredStates

/-- A frame that is not stale carries a version the stored one may move to. -/
theorem version_accepted (frame : Frame) (stored : Int32) (fresh : ¬Stale frame stored) :
    stored ≤ (explicitVersion frame).getD (saturatingSucc stored) := by
  cases explicit : explicitVersion frame with
  | none => exact le_saturating_succ stored
  | some version =>
    apply Int32.not_lt.mp
    intro below
    exact fresh ⟨version, explicit, .inl below⟩

/-- The text a frame brings to the key's document: it is addressed to it, not stale, and its members
are complete replacements within the bound. -/
def admittedText (key : List Char) (documents : Documents Ast ParseError) (frame : Frame) :
    Option (List Char) :=
  match documents key with
  | some doc =>
    if addressee env frame = some key ∧
        isStale (explicitVersion frame) frame.allowSameVersion doc.version = false then
      replacement env frame
    else none
  | none => none

structure FrameSafe (key : List Char) (documents : Documents Ast ParseError) (frame : Frame)
    (before after : DocumentState Ast ParseError) : Prop where
  version : before.version ≤ after.version
  stale : addressee env frame = some key → Stale frame before.version →
    step env documents frame = documents
  refused : addressee env frame = some key → ¬Stale frame before.version → Violation env frame →
    DocumentState.SameText before after ∧ after.fullSyncRequired = true
  cleared : before.fullSyncRequired = true → after.fullSyncRequired = false →
    ∃ text, admittedText env key documents frame = some text
  text : after.text = (admittedText env key documents frame).getD before.text

section
variable (key : List Char) (documents : Documents Ast ParseError) (frame : Frame)
include key documents frame

variable (doc : DocumentState Ast ParseError)

theorem admitted_of_fresh (opened : documents key = some doc)
    (addressed : addressee env frame = some key) (fresh : ¬Stale frame doc.version) :
    admittedText env key documents frame = replacement env frame := by
  unfold admittedText
  cases given : frame.params with
  | none => simp [addressee, given] at addressed
  | some params =>
    have notStale : isStale (explicitVersion frame) frame.allowSameVersion doc.version = false := by
      rw [explicitVersion, given]
      exact Bool.eq_false_iff.mpr fun late => fresh ((stale_iff frame params given _).mp late)
    simp only [opened]
    rw [if_pos ⟨addressed, notStale⟩]

theorem admitted_of_stale (opened : documents key = some doc)
    (stale : Stale frame doc.version) : admittedText env key documents frame = none := by
  unfold admittedText
  cases given : frame.params with
  | none =>
    obtain ⟨version, explicit, -⟩ := stale
    simp [explicitVersion, given] at explicit
  | some params =>
    have late : isStale (explicitVersion frame) frame.allowSameVersion doc.version = true := by
      rw [explicitVersion, given]
      exact (stale_iff frame params given _).mpr stale
    simp only [opened]
    rw [if_neg fun both => Bool.noConfusion (late.symm.trans both.2)]

theorem admitted_elsewhere (elsewhere : addressee env frame ≠ some key) :
    admittedText env key documents frame = none := by
  unfold admittedText
  split
  · exact if_neg fun both => elsewhere both.1
  · rfl

theorem frame_safe (doc : DocumentState Ast ParseError) (opened : documents key = some doc) :
    ∃ next, step env documents frame key = some next ∧ FrameSafe env key documents frame doc next := by
  by_cases addressed : addressee env frame = some key
  · obtain ⟨stale, result⟩ | ⟨fresh, none, result⟩ | ⟨fresh, text, uri, replaced, result⟩ :=
      step_cases env documents frame key doc addressed opened
    · have nothing := admitted_of_stale env key documents frame doc opened stale
      refine ⟨doc, by rw [result, opened], Int32.le_refl _, fun _ _ => result,
        fun _ fresh _ => absurd stale fresh, ?_, by rw [nothing]; rfl⟩
      intro set clear
      rw [set] at clear
      cases clear
    · have nothing := admitted_of_fresh env key documents frame doc opened addressed fresh
      rw [none] at nothing
      have same := refused_same_text doc (explicitVersion frame)
      have required := refused_required doc (explicitVersion frame)
      refine ⟨refused (explicitVersion frame) doc, by rw [result]; exact insert_same _ _ _,
        refused_version doc _, fun _ stale => absurd stale fresh, fun _ _ _ => ⟨same, required⟩,
        ?_, by rw [nothing]; exact same.text⟩
      intro _ clear
      rw [required] at clear
      cases clear
    · have admitted := admitted_of_fresh env key documents frame doc opened addressed fresh
      rw [replaced] at admitted
      obtain ⟨newText, newVersion, -, -⟩ := committed_holds env doc uri frame.sizeLimit
        ((explicitVersion frame).getD (saturatingSucc doc.version)) text
      refine ⟨_, by rw [result]; exact insert_same _ _ _, ?_, fun _ stale => absurd stale fresh,
        ?_, fun _ _ => ⟨text, admitted⟩, by rw [admitted]; exact newText⟩
      · rw [newVersion]
        exact version_accepted frame doc.version fresh
      · intro _ _ violation
        rw [violation_no_replacement env frame violation] at replaced
        cases replaced
  · have nothing := admitted_elsewhere env key documents frame addressed
    refine ⟨doc, (step_elsewhere env documents frame key addressed).trans opened, Int32.le_refl _,
      fun here => absurd here addressed, fun here => absurd here addressed, ?_,
      by rw [nothing]; rfl⟩
    intro set clear
    rw [set] at clear
    cases clear

end

theorem text_sync_safety (key : List Char) (documents : Documents Ast ParseError)
    (doc : DocumentState Ast ParseError) (opened : documents key = some doc)
    (frames : List Frame) :
    ∃ current, Runs.run (step env) documents frames key = some current ∧
      doc.version ≤ current.version ∧
      current.text = Runs.latest (step env) (admittedText env key) documents doc.text frames ∧
      ∀ frame, ∃ next, step env (Runs.run (step env) documents frames) frame key = some next ∧
        FrameSafe env key (Runs.run (step env) documents frames) frame current next := by
  obtain ⟨current, found, above, text⟩ := Runs.run_latest (step env) (admittedText env key)
    (fun state held => ∃ current, state key = some current ∧ doc.version ≤ current.version ∧
      current.text = held)
    (by
      rintro state frame held ⟨current, found, above, text⟩
      obtain ⟨next, reached, safe⟩ := frame_safe env key state frame current found
      exact ⟨next, reached, Int32.le_trans above safe.version, by rw [safe.text, text]⟩)
    documents doc.text frames ⟨doc, opened, Int32.le_refl _, rfl⟩
  exact ⟨current, found, above, text, fun frame => frame_safe env key _ frame current found⟩

end Frames

section Sample

def sampleUri : List Char := ['u', 'n', 't', 'i', 't', 'l', 'e', 'd', ':', 'a']

-- On the members below the event's text is the member's string field.
def sampleEnv : Env where
  uriKey := id
  changeEventText := fun member => (member.get "text").bind Value.asStr
  isBinaryContent := fun _ => false

def sampleDocuments : Documents Unit Unit := insert (fun _ => none) sampleUri (.new ['a'] 1)

def sampleChange (version : Number) (members : List Value) : Frame :=
  didChange (some (.object
    [("textDocument", .object [("uri", .string sampleUri), ("version", .number version)]),
      ("contentChanges", .array members)])) 1000

def fullMember (text : List Char) : Value := .object [("text", .string text)]

/-- An accepted edit, a mixed array that is refused, a delayed older replacement,
and the save that recovers the document. -/
def sampleFrames : List Frame :=
  [sampleChange (.posInt 2) [fullMember ['b'], fullMember [Char.ofNat 0xFEFF, 'c']],
    sampleChange (.posInt 5) [fullMember ['x'], .object [("range", .null), ("text", .string ['y'])]],
    sampleChange (.posInt 3) [fullMember ['z']],
    didSave sampleUri ['d'] 5 1000]

theorem text_sync_safety_sample :
    ∃ current, Runs.run (step sampleEnv) sampleDocuments sampleFrames sampleUri = some current ∧
      1 ≤ current.version ∧ current.text = ['d'] ∧
      ∀ frame, ∃ next,
        step sampleEnv (Runs.run (step sampleEnv) sampleDocuments sampleFrames) frame sampleUri =
          some next ∧
        FrameSafe sampleEnv sampleUri (Runs.run (step sampleEnv) sampleDocuments sampleFrames) frame
          current next := by
  have latest : Runs.latest (step sampleEnv) (admittedText sampleEnv sampleUri) sampleDocuments
      ['a'] sampleFrames = ['d'] := by decide
  have safe := text_sync_safety sampleEnv sampleUri sampleDocuments (.new ['a'] 1) rfl sampleFrames
  obtain ⟨current, found, above, text, next⟩ := safe
  exact ⟨current, found, above, text.trans latest, next⟩

/-- A version outside the i32 range counts as omitted, so such a frame still replaces the text; and
the version gate comes before admission, so a stale frame without changes sets no flag. -/
theorem unrepresentable_version_replaces_text :
    (∃ version : Int,
      ((sampleChange (.negInt (-3000000000)) [fullMember ['b']]).params.bind fun params =>
        (params.pointer "textDocument" "version").bind Value.asI64) = some version ∧
      version < (1 : Int32).toInt ∧
      (sampleDocuments sampleUri).map DocumentState.version = some 1 ∧
      (sampleDocuments sampleUri).map DocumentState.text = some ['a'] ∧
      (step sampleEnv sampleDocuments (sampleChange (.negInt (-3000000000)) [fullMember ['b']])
        sampleUri).map DocumentState.text = some ['b']) ∧
    Violation sampleEnv (sampleChange (.posInt 0) []) ∧
    (step sampleEnv sampleDocuments (sampleChange (.posInt 0) []) sampleUri).map
      DocumentState.fullSyncRequired = some false := by
  refine ⟨⟨-3000000000, by decide, by decide, by decide, by decide, by decide⟩, ?_, by decide⟩
  exact .empty rfl

end Sample

end PerlLsp.TextSync
