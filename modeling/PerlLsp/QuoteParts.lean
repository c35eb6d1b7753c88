import PerlLsp.QuoteBody
import PerlLsp.Text

/-! The parts of quote-like operators (syntax/quote.rs): the strict readings, which
report what is wrong with an operator, and the lenient ones, which always give some
parts. Which scalars are letters and digits outside ASCII is a parameter. -/
namespace PerlLsp.QuoteParts
open QuoteBody List Nat Option

/-- `char::is_alphabetic` and `char::is_alphanumeric`. -/
structure CharClasses where
  isAlphabetic : Char → Bool
  isAlphanumeric : Char → Bool
  ascii : ∀ ch : Char, ch.toNat < 128 →
    isAlphabetic ch = ch.isAlpha ∧ isAlphanumeric ch = ch.isAlphanum

def asciiClasses : CharClasses := ⟨Char.isAlpha, Char.isAlphanum, fun _ _ => ⟨rfl, rfl⟩⟩

def isAsciiWhitespace (ch : Char) : Bool :=
  ch == ' ' || ch == '\t' || ch == '\n' || ch == '\x0C' || ch == '\r'

/-- `skip_paired_replacement_gap` as one walk: a comment can begin once white space was seen, and
ends behind its line break. -/
def skipGapFrom : Bool → Bool → List Char → List Char
  | _, _, [] => []
  | _, true, ch :: text => skipGapFrom true (!(ch == '\n' || ch == '\r')) text
  | commentEligible, false, ch :: text =>
    if isAsciiWhitespace ch then skipGapFrom true false text
    else if commentEligible && ch == '#' then skipGapFrom true true text
    else ch :: text

def skipPairedReplacementGap (text : List Char) : List Char := skipGapFrom false false text

def extractDelimitedContent (text : List Char) (opening closing : Char) : List Char × List Char :=
  let extracted := extractDelimitedContentStrict text opening closing
  (extracted.body, extracted.rest)

def extractUnpairedBody (closing : Char) : Bool → List Char → Extracted
  | _, [] => ⟨[], [], false⟩
  | true, ch :: text => (extractUnpairedBody closing false text).push ch
  | false, ch :: text =>
    if ch = '\\' then (extractUnpairedBody closing true text).push ch
    else if ch = closing then ⟨[], text, true⟩
    else (extractUnpairedBody closing false text).push ch

def isWordApostrophe (previous : Option Char) (quote : Char) : Bool :=
  quote == '\'' && previous.any fun ch => ch.isAlphanum || ch == '_'

/-- The loop of `scan_inner_string`: how many scalars up to the closing quote, and whether the
delimiter is among them. -/
def scanString (quote delimiter : Char) : Bool → Bool → List Char → Option (Nat × Bool)
  | _, _, [] => none
  | true, containsDelim, _ :: text =>
    (scanString quote delimiter false containsDelim text).map fun found => (found.1 + 1, found.2)
  | false, containsDelim, ch :: text =>
    if ch = '\\' then
      (scanString quote delimiter true containsDelim text).map fun found => (found.1 + 1, found.2)
    else if ch = '\n' then none
    else if ch = quote then some (1, containsDelim || ch == delimiter)
    else
      (scanString quote delimiter false (containsDelim || ch == delimiter) text).map fun found =>
        (found.1 + 1, found.2)

/-- `text` is what stands behind the quote, `previous` what stands before it. -/
def scanInnerString (previous : Option Char) (text : List Char) (quote delimiter : Char) :
    Option (Nat × Bool) :=
  if isWordApostrophe previous quote then none
  else if previous = some quote then none
  else if text.head? = some quote then none
  else scanString quote delimiter false false text

/-- `previous` is the scalar before the text; `copied` more scalars of a string are taken over as
they are. -/
def skipStrings (closing : Char) : Option Char → Bool → Nat → List Char → Extracted
  | _, _, _, [] => ⟨[], [], false⟩
  | _, escaped, copied + 1, ch :: text => (skipStrings closing (some ch) escaped copied text).push ch
  | _, true, 0, ch :: text => (skipStrings closing (some ch) false 0 text).push ch
  | previous, false, 0, ch :: text =>
    if ch = '\\' then (skipStrings closing (some ch) true 0 text).push ch
    else if (ch = '"' ∨ ch = '\'') ∧ ch ≠ closing then
      match scanInnerString previous text ch closing with
      | some (length, true) => (skipStrings closing (some ch) false length text).push ch
      | _ => (skipStrings closing (some ch) false 0 text).push ch
    else if ch = closing then ⟨[], text, true⟩
    else (skipStrings closing (some ch) false 0 text).push ch

def extractUnpairedBodySkipStrings (text : List Char) (closing : Char) : Extracted :=
  skipStrings closing none false 0 text

def startsWithPairedDelimiter (text : List Char) : Bool := (Text.trimStart text).head?.any isPairedOpen

/-- The loop of `extract_substitution_pattern_with_replacement_hint`; `first` is what the first
closing delimiter leaves. -/
def hintFrom (opening closing : Char) :
    Nat → Bool → List Char → Option (List Char × List Char) → List Char → Extracted
  | _, _, body, first, [] =>
    match first with
    | some (firstBody, rest) => ⟨firstBody, rest, true⟩
    | none => ⟨body, [], false⟩
  | depth, true, body, first, ch :: text =>
    hintFrom opening closing depth false (body ++ [ch]) first text
  | depth, false, body, first, ch :: text =>
    if ch = '\\' then hintFrom opening closing depth true (body ++ [ch]) first text
    else if ch = opening then hintFrom opening closing (depth + 1) false (body ++ [ch]) first text
    else if ch = closing then
      if 1 < depth then hintFrom opening closing (depth - 1) false (body ++ [ch]) first text
      else if startsWithPairedDelimiter text then ⟨body, text, true⟩
      else
        hintFrom opening closing depth false (body ++ [ch]) (first.or (some (body, text))) text
    else hintFrom opening closing depth false (body ++ [ch]) first text

def extractSubstitutionPatternWithReplacementHint (text : List Char) (opening closing : Char) :
    Extracted :=
  match text with
  | [] => ⟨[], [], false⟩
  | ch :: behind =>
    if ch ≠ opening then ⟨[], text, false⟩ else hintFrom opening closing 1 false [] none behind

/-- `paired_open_positions`: what stands before each unescaped paired opening delimiter, and
the text from it on. -/
def pairedOpenPositions : Bool → List Char → List Char → List (List Char × Char × List Char)
  | _, _, [] => []
  | true, before, ch :: text => pairedOpenPositions false (before ++ [ch]) text
  | false, before, ch :: text =>
    if ch = '\\' then pairedOpenPositions true (before ++ [ch]) text
    else if isPairedOpen ch then
      (before, ch, ch :: text) :: pairedOpenPositions false (before ++ [ch]) text
    else pairedOpenPositions false (before ++ [ch]) text

abbrev Parts := List Char × List Char × List Char

def splitAtPairedOpen (position : List Char × Char × List Char) : Option Parts :=
  let (before, opening, text) := position
  let extracted := extractDelimitedContentStrict text opening (getClosingDelimiter opening)
  if extracted.foundClosing then some (before, extracted.body, extracted.rest) else none

def splitUnclosedSubstitutionPattern (pattern : List Char) : Option Parts :=
  (pairedOpenPositions false [] pattern).findSome? splitAtPairedOpen

def splitOnLastPairedDelimiter (text : List Char) : Option Parts :=
  (pairedOpenPositions false [] text).reverse.findSome? splitAtPairedOpen

def isMatchModifier (ch : Char) : Bool := "msixpodualngc".toList.contains ch

def isSubstitutionModifier (ch : Char) : Bool := "gimsxoeradlunpc".toList.contains ch

def isTransliterationModifier (ch : Char) : Bool := "cdsr".toList.contains ch

def extractSubstitutionModifiers (text : List Char) : List Char :=
  (text.takeWhile Char.isAlpha).filter isSubstitutionModifier

/-- White space and `;` end the modifiers. -/
def endsModifiers (ch : Char) : Bool :=
  Text.isWhitespace ch || ch == ';' || ch == '\n' || ch == '\r'

def validateSubstitutionModifiers : List Char → Except Char (List Char)
  | [] => .ok []
  | ch :: text =>
    if !ch.isAlpha then if endsModifiers ch then .ok [] else .error ch
    else if isSubstitutionModifier ch then (validateSubstitutionModifiers text).map (ch :: ·)
    else .error ch

/-- The doubled `xx` and `aa` are read as one modifier. -/
def validateMatchModifiersFor (allowMatchLoop : Bool) : List Char → Except Char (List Char)
  | [] => .ok []
  | [ch] =>
    if !ch.isAlpha then if endsModifiers ch then .ok [] else .error ch
    else if isMatchModifier ch && (allowMatchLoop || !(ch == 'g' || ch == 'c')) then .ok [ch]
    else .error ch
  | ch :: next :: text =>
    if !ch.isAlpha then if endsModifiers ch then .ok [] else .error ch
    else if (ch == 'x' || ch == 'a') && next == ch then
      (validateMatchModifiersFor allowMatchLoop text).map (ch :: ch :: ·)
    else if isMatchModifier ch && (allowMatchLoop || !(ch == 'g' || ch == 'c')) then
      (validateMatchModifiersFor allowMatchLoop (next :: text)).map (ch :: ·)
    else .error ch

inductive MatchError where
  | invalidModifier (modifier : Char)
  | invalidDelimiter (delimiter : Char)
  | missingDelimiter
  deriving DecidableEq

inductive SubstitutionError where
  | invalidModifier (modifier : Char)
  | invalidDelimiter (delimiter : Char)
  | missingDelimiter
  | missingReplacement
  | missingClosingDelimiter
  deriving DecidableEq

inductive TransliterationError where
  | invalidModifier (modifier : Char)
  | invalidDelimiter (delimiter : Char)
  | missingDelimiter
  | missingReplacement
  | missingClosingDelimiter
  deriving DecidableEq

def stripTransliterationPrefix : List Char → List Char
  | 't' :: 'r' :: text => text
  | 'y' :: text => text
  | text => text

def stripSubstitutionPrefix : List Char → List Char
  | 's' :: text => text
  | text => text

section Operators
variable (classes : CharClasses)

def CharClasses.isValidDelimiter (ch : Char) : Bool :=
  !classes.isAlphanumeric ch && !Text.isWhitespace ch

def stripMatchPrefix : List Char → Option (List Char)
  | 'm' :: stripped =>
    (skipPairedReplacementGap stripped).head?.bind fun delimiter =>
      if classes.isAlphabetic delimiter then none else some stripped
  | _ => none

/-- What stands behind the operator, and whether it is `qr`. -/
def regexContent (text : List Char) : List Char :=
  match text with
  | 'q' :: 'r' :: stripped => skipPairedReplacementGap stripped
  | _ =>
    match stripMatchPrefix classes text with
    | some stripped => skipPairedReplacementGap stripped
    | none => text

def extractRegexParts (text : List Char) : Parts :=
  let content := regexContent classes text
  match content.head? with
  | none => ([], [], [])
  | some delimiter =>
    let closing := getClosingDelimiter delimiter
    let (body, modifiers) := extractDelimitedContent content delimiter closing
    (delimiter :: body ++ [closing], body, modifiers)

def extractRegexPartsStrict (text : List Char) : Except MatchError Parts :=
  let isQr := ['q', 'r'].isPrefixOf text
  let content := regexContent classes text
  match content.head? with
  | none => .error .missingDelimiter
  | some delimiter =>
    if !classes.isValidDelimiter delimiter then .error (.invalidDelimiter delimiter)
    else
      let closing := getClosingDelimiter delimiter
      let (body, modifiersRaw) := extractDelimitedContent content delimiter closing
      match validateMatchModifiersFor (!isQr) modifiersRaw with
      | .error modifier => .error (.invalidModifier modifier)
      | .ok modifiers => .ok (delimiter :: body ++ [closing], body, modifiers)

def strictReplacement (delimiter closing : Char) (rest : List Char) :
    Except SubstitutionError Extracted :=
  if delimiter = closing then
    if rest = [] then .error .missingReplacement else .ok (extractUnpairedBodySkipStrings rest closing)
  else
    let trimmed := skipPairedReplacementGap rest
    match trimmed.head? with
    | none => .error .missingReplacement
    | some second =>
      if Text.isWhitespace second then .error (.invalidDelimiter second)
      else .ok (extractDelimitedContentStrict trimmed second (getClosingDelimiter second))

def extractSubstitutionPartsStrict (text : List Char) : Except SubstitutionError Parts :=
  let content := skipPairedReplacementGap (stripSubstitutionPrefix text)
  match content.head? with
  | none => .error .missingDelimiter
  | some delimiter =>
    if !classes.isValidDelimiter delimiter then .error (.invalidDelimiter delimiter)
    else
      let closing := getClosingDelimiter delimiter
      let pattern := extractDelimitedContentStrict content delimiter closing
      if !pattern.foundClosing then .error .missingClosingDelimiter
      else
        match strictReplacement delimiter closing pattern.rest with
        | .error error => .error error
        | .ok replacement =>
          if !replacement.foundClosing then .error .missingClosingDelimiter
          else
            match validateSubstitutionModifiers replacement.rest with
            | .error modifier => .error (.invalidModifier modifier)
            | .ok modifiers => .ok (pattern.body, replacement.body, modifiers)

def lenientReplacement (rest : List Char) : List Char × List Char :=
  let trimmed := skipPairedReplacementGap rest
  match trimmed.head? with
  | none => ([], trimmed)
  | some second =>
    if !classes.isValidDelimiter second then ([], trimmed)
    else extractDelimitedContent trimmed second (getClosingDelimiter second)

def extractSubstitutionParts (text : List Char) : Parts :=
  let content := skipPairedReplacementGap (stripSubstitutionPrefix text)
  match content.head? with
  | none => ([], [], [])
  | some delimiter =>
    if !classes.isValidDelimiter delimiter then
      match splitOnLastPairedDelimiter content with
      | some (pattern, replacement, modifiers) =>
        (pattern, replacement, extractSubstitutionModifiers modifiers)
      | none => ([], [], [])
    else
      let closing := getClosingDelimiter delimiter
      if delimiter ≠ closing then
        let pattern := extractSubstitutionPatternWithReplacementHint content delimiter closing
        let (replacement, modifiers) := lenientReplacement classes pattern.rest
        (pattern.body, replacement, extractSubstitutionModifiers modifiers)
      else
        let pattern := extractDelimitedContentStrict content delimiter closing
        if pattern.rest ≠ [] then
          let replacement := extractUnpairedBodySkipStrings pattern.rest closing
          (pattern.body, replacement.body, extractSubstitutionModifiers replacement.rest)
        else if !pattern.foundClosing then
          match splitUnclosedSubstitutionPattern pattern.body with
          | some (front, replacement, modifiers) =>
            (front, replacement, extractSubstitutionModifiers modifiers)
          | none => (pattern.body, [], extractSubstitutionModifiers pattern.rest)
        else (pattern.body, [], extractSubstitutionModifiers pattern.rest)

def extractTransliterationParts (text : List Char) : Parts :=
  let content := skipPairedReplacementGap (stripTransliterationPrefix text)
  match content.head? with
  | none => ([], [], [])
  | some delimiter =>
    if !classes.isValidDelimiter delimiter then ([], [], [])
    else
      let closing := getClosingDelimiter delimiter
      let (search, rest) := extractDelimitedContent content delimiter closing
      let (replacement, modifiers) :=
        if delimiter = closing then
          if rest = [] then ([], rest)
          else
            let extracted := extractUnpairedBody closing false rest
            (extracted.body, extracted.rest)
        else
          let trimmed := skipPairedReplacementGap rest
          match trimmed.head? with
          | none => ([], trimmed)
          | some second =>
            if classes.isValidDelimiter second then
              extractDelimitedContent trimmed second (getClosingDelimiter second)
            else ([], trimmed)
      (search, replacement, (modifiers.takeWhile Char.isAlpha).filter isTransliterationModifier)

def strictTransliterationReplacement (delimiter closing : Char) (rest : List Char) :
    Except TransliterationError Extracted :=
  if delimiter = closing then
    if rest = [] then .error .missingReplacement else .ok (extractUnpairedBodySkipStrings rest closing)
  else
    let trimmed := skipPairedReplacementGap rest
    match trimmed.head? with
    | none => .error .missingReplacement
    | some second =>
      if !classes.isValidDelimiter second then .error (.invalidDelimiter second)
      else .ok (extractDelimitedContentStrict trimmed second (getClosingDelimiter second))

def extractTransliterationPartsStrict (text : List Char) : Except TransliterationError Parts :=
  let content := skipPairedReplacementGap (stripTransliterationPrefix text)
  match content.head? with
  | none => .error .missingDelimiter
  | some delimiter =>
    if !classes.isValidDelimiter delimiter then .error (.invalidDelimiter delimiter)
    else
      let closing := getClosingDelimiter delimiter
      let search := extractDelimitedContentStrict content delimiter closing
      if !search.foundClosing then .error .missingClosingDelimiter
      else
        match strictTransliterationReplacement classes delimiter closing search.rest with
        | .error error => .error error
        | .ok replacement =>
          if !replacement.foundClosing then .error .missingClosingDelimiter
          else
            let written := replacement.rest.takeWhile Char.isAlphanum
            match written.find? fun modifier => !isTransliterationModifier modifier with
            | some modifier => .error (.invalidModifier modifier)
            | none => .ok (search.body, replacement.body, written)

end Operators
/-- Behind the first closing delimiter comes another one, in no group, with a paired opening
delimiter behind it. -/
def LaterCandidate (opening closing : Char) (rest : List Char) : Prop :=
  ∃ depth between after, Closes opening closing depth between ∧
    rest = between ++ closing :: after ∧ startsWithPairedDelimiter after = true

section Hint
variable {opening closing : Char}

theorem hint_opening (plainOpening : opening ≠ '\\') (depth : Nat) (body : List Char)
    (first : Option (List Char × List Char)) (text : List Char) :
    hintFrom opening closing depth false body first (opening :: text) =
      hintFrom opening closing (depth + 1) false (body ++ [opening]) first text := by
  simp [hintFrom, plainOpening]

theorem hint_inner_closing (plainClosing : closing ≠ '\\') (paired : opening ≠ closing)
    (depth : Nat) (inner : 1 < depth) (body : List Char) (first : Option (List Char × List Char))
    (text : List Char) : hintFrom opening closing depth false body first (closing :: text) =
      hintFrom opening closing (depth - 1) false (body ++ [closing]) first text := by
  simp [hintFrom, plainClosing, paired.symm, inner]

theorem hint_balanced (plainOpening : opening ≠ '\\') (plainClosing : closing ≠ '\\')
    (inner : List Char) (balanced : Balanced opening closing inner) (depth : Nat) (deep : 0 < depth)
    (body : List Char) (first : Option (List Char × List Char)) (text : List Char) :
    hintFrom opening closing depth false body first (inner ++ text) =
      hintFrom opening closing depth false (body ++ inner) first text := by
  induction balanced generalizing depth body text with
  | nil => simp
  | plain ch rest unescaped notOpening notClosing _ ih =>
    simp [hintFrom, unescaped, notOpening, notClosing, ih depth deep]
  | escaped ch rest _ ih => simp [hintFrom, ih depth deep]
  | group inner rest paired _ _ within ih =>
    have inside := within (depth + 1) (succ_pos depth) (body ++ [opening]) (closing :: (rest ++ text))
    have behind := ih depth deep (body ++ [opening] ++ inner ++ [closing]) text
    have split : opening :: inner ++ closing :: rest ++ text =
        opening :: (inner ++ closing :: (rest ++ text)) := by simp
    rw [split, hint_opening plainOpening, inside,
      hint_inner_closing plainClosing paired (depth + 1) (succ_lt_succ deep),
      Nat.add_sub_cancel, behind]
    simp

theorem hint_closing (plainClosing : closing ≠ '\\') (paired : opening ≠ closing)
    (body : List Char) (first : Option (List Char × List Char)) (text : List Char) :
    hintFrom opening closing 1 false body first (closing :: text) =
      if startsWithPairedDelimiter text then ⟨body, text, true⟩
      else hintFrom opening closing 1 false (body ++ [closing]) (first.or (some (body, text))) text := by
  simp [hintFrom, plainClosing, paired.symm]

section
variable (plainOpening : opening ≠ '\\') (plainClosing : closing ≠ '\\')
include plainOpening plainClosing

theorem hint_unclosed (text : List Char) (depth : Nat) (deep : 0 < depth) (escaped : Bool) (body : List Char)
    (first : List Char × List Char)
    (unclosed : (scanDelimited opening closing depth escaped text).foundClosing = false) :
    hintFrom opening closing depth escaped body (some first) text = ⟨first.1, first.2, true⟩ := by
  induction text generalizing depth escaped body with
  | nil => simp [hintFrom]
  | cons ch text ih =>
    cases escaped with
    | true =>
      simpa only [hintFrom] using ih depth deep false _ unclosed
    | false =>
      cases reads plainOpening depth ch text with
      | backslash same scans =>
        rw [scans] at unclosed
        simpa [hintFrom, same] using ih depth deep true (body ++ [ch]) unclosed
      | opening same paired scans =>
        rw [scans] at unclosed
        simpa [hintFrom, same, plainOpening] using
          ih (depth + 1) (succ_pos depth) false (body ++ [ch]) unclosed
      | closing same paired inside scans =>
        rw [scans] at unclosed
        rw [same, hint_inner_closing plainClosing paired depth (by omega)]
        exact ih (depth - 1) (by omega) false (body ++ [closing]) unclosed
      | last same outermost scans =>
        rw [scans] at unclosed
        cases unclosed
      | plain unescaped notOpening notClosing scans =>
        rw [scans] at unclosed
        simpa [hintFrom, unescaped, notOpening, notClosing] using ih depth deep false (body ++ [ch]) unclosed

/-- A closing delimiter that ends a balanced text is the next candidate. -/
theorem later_candidate_behind (inner after : List Char) (balanced : Balanced opening closing inner) :
    LaterCandidate opening closing (inner ++ closing :: after) ↔
      startsWithPairedDelimiter after = true ∨ LaterCandidate opening closing after := by
  constructor
  · rintro ⟨depth, between, tail, closes, split, starts⟩
    cases closes with
    | last _ betweenBalanced =>
      obtain ⟨rfl, rfl⟩ := balanced_unique plainOpening plainClosing inner between after tail
        balanced betweenBalanced split
      exact .inl starts
    | closed outer head rest headBalanced closes =>
      rw [append_assoc, cons_append] at split
      obtain ⟨rfl, rfl⟩ := balanced_unique plainOpening plainClosing inner head after _
        balanced headBalanced split
      exact .inr ⟨outer, rest, tail, closes, rfl, starts⟩
  · rintro (starts | ⟨depth, between, tail, closes, rfl, starts⟩)
    · exact ⟨0, inner, after, .last inner balanced, rfl, starts⟩
    · exact ⟨depth + 1, inner ++ closing :: between, tail, .closed depth inner between balanced closes,
        by simp, starts⟩

theorem no_candidate_unclosed (text : List Char)
    (unclosed : (extractDelimitedContentStrict (opening :: text) opening closing).foundClosing = false) :
    ¬ LaterCandidate opening closing text := by
  rintro ⟨depth, between, after, closes, rfl, -⟩
  have found : ∃ inner rest, Balanced opening closing inner ∧
      between ++ closing :: after = inner ++ closing :: rest := by
    cases closes with
    | last _ balanced => exact ⟨between, after, balanced, rfl⟩
    | closed _ inner rest balanced _ => exact ⟨inner, rest ++ closing :: after, balanced, by simp⟩
  obtain ⟨inner, rest, balanced, split⟩ := found
  rw [split, ← cons_append, extract_balanced plainOpening plainClosing inner rest balanced] at unclosed
  cases unclosed

/-- Once a first closing delimiter is known, a later candidate lengthens the body and
otherwise the first one counts. -/
theorem hint_behind_first
    (paired : opening ≠ closing) (text body : List Char) (first : List Char × List Char) :
    (LaterCandidate opening closing text →
      ∃ further after, hintFrom opening closing 1 false body (some first) text =
        ⟨body ++ further, after, true⟩) ∧ (¬ LaterCandidate opening closing text →
      hintFrom opening closing 1 false body (some first) text = ⟨first.1, first.2, true⟩) := by
  have level : outerLevel opening closing = 1 := if_pos paired
  induction size : text.length using Nat.strong_induction_on generalizing text body with
  | h bound ih =>
    cases closed : (extractDelimitedContentStrict (opening :: text) opening closing).foundClosing with
    | false =>
      have none := no_candidate_unclosed plainOpening plainClosing text closed
      rw [extract_behind_opening, level] at closed
      exact ⟨fun candidate => absurd candidate none,
        fun _ => hint_unclosed plainOpening plainClosing text 1 Nat.one_pos false body first closed⟩
    | true =>
      obtain ⟨inner, after, -, split, balanced⟩ := extract_closed plainOpening _ closed
      obtain rfl : text = inner ++ closing :: after := List.cons.inj split |>.2
      rw [later_candidate_behind plainOpening plainClosing inner after balanced,
        hint_balanced plainOpening plainClosing inner balanced 1 Nat.one_pos,
        hint_closing plainClosing paired]
      have shorter : after.length < bound := by
        rw [← size]
        simp
        omega
      obtain ⟨longer, fallback⟩ := ih after.length shorter after (body ++ inner ++ [closing]) rfl
      by_cases starts : startsWithPairedDelimiter after = true
      · rw [if_pos starts]
        exact ⟨fun _ => ⟨inner, after, rfl⟩, fun none => absurd (.inl starts) none⟩
      rw [if_neg starts]
      constructor
      · rintro (found | candidate)
        · exact absurd found starts
        · obtain ⟨further, rest, same⟩ := longer candidate
          exact ⟨inner ++ [closing] ++ further, rest, by simpa using same⟩
      · intro none
        exact fallback fun candidate => none (.inr candidate)

/-- The pattern ends at the first closing delimiter unless the hint finds a later one. -/
theorem hint_pattern
    (paired : opening ≠ closing) (body rest : List Char) (balanced : Balanced opening closing body) :
    let hinted := extractSubstitutionPatternWithReplacementHint (opening :: body ++ closing :: rest)
      opening closing
    (startsWithPairedDelimiter rest = true ∨ ¬ LaterCandidate opening closing rest →
      hinted = ⟨body, rest, true⟩) ∧
    (hinted.body = body → startsWithPairedDelimiter rest = true ∨
      ¬ LaterCandidate opening closing rest) := by
  intro hinted
  have scanned : hinted = if startsWithPairedDelimiter rest then ⟨body, rest, true⟩
      else hintFrom opening closing 1 false (body ++ [closing]) (some (body, rest)) rest := by
    have copied := hint_balanced plainOpening plainClosing body balanced 1 Nat.one_pos [] none
      (closing :: rest)
    rw [hint_closing plainClosing paired] at copied
    simpa [hinted, extractSubstitutionPatternWithReplacementHint] using copied
  obtain ⟨longer, fallback⟩ := hint_behind_first plainOpening plainClosing paired rest
    (body ++ [closing]) (body, rest)
  by_cases starts : startsWithPairedDelimiter rest = true
  · rw [if_pos starts] at scanned
    exact ⟨fun _ => scanned, fun _ => .inl starts⟩
  rw [if_neg starts] at scanned
  constructor
  · rintro (found | none)
    · exact absurd found starts
    · rw [scanned, fallback none]
  · intro same
    right
    intro candidate
    obtain ⟨further, after, lengthened⟩ := longer candidate
    rw [scanned, lengthened] at same
    simpa using congrArg List.length same

end

end Hint

def HidesDelimiter (closing : Char) (previous : Option Char) (escaped : Bool) (text : List Char) :
    Prop :=
  ∃ between quote after length, text = between ++ quote :: after ∧
    Balanced closing closing (if escaped then '\\' :: between else between) ∧
    (quote = '"' ∨ quote = '\'') ∧ quote ≠ closing ∧
    scanInnerString (between.getLast?.or previous) after quote closing = some (length, true)

section Strings
variable {closing : Char}

theorem getLast?_cons_or (ch : Char) (text : List Char) (previous : Option Char) :
    (ch :: text).getLast?.or previous = text.getLast?.or (some ch) := by
  cases text with
  | nil => rfl
  | cons next text => simp [getLast?_cons]

/-- The delimiter that a string hides ends a body that knows of no strings before the
string does. -/
theorem hidden_delimiter_ends (quote : Char) (differ : quote ≠ closing) (text : List Char)
    (escaped : Bool) (length : Nat) (contains : Bool)
    (found : scanString quote closing escaped contains text = some (length, true)) :
    length ≤ text.length ∧ (contains = false →
      (extractUnpairedBody closing escaped text).body.length < length) := by
  induction text generalizing escaped length contains with
  | nil => simp [scanString] at found
  | cons ch text ih =>
    cases escaped with
    | true =>
      simp only [scanString, map_eq_some_iff] at found
      obtain ⟨⟨inner, kept⟩, scanned, same⟩ := found
      obtain ⟨rfl, rfl⟩ := Prod.mk.inj same
      obtain ⟨within, ends⟩ := ih false inner contains scanned
      refine ⟨succ_le_succ within, fun none => ?_⟩
      simpa [extractUnpairedBody, Extracted.push] using ends none
    | false =>
      simp only [scanString] at found
      split at found
      · next backslash =>
          obtain ⟨⟨inner, kept⟩, scanned, same⟩ := map_eq_some_iff.mp found
          obtain ⟨rfl, rfl⟩ := Prod.mk.inj same
          obtain ⟨within, ends⟩ := ih true inner contains scanned
          refine ⟨succ_le_succ within, fun none => ?_⟩
          simpa [extractUnpairedBody, Extracted.push, backslash] using ends none
      · next unescaped =>
          split at found
          · cases found
          split at found
          · next ends =>
              obtain ⟨rfl, held⟩ := Prod.mk.inj (some.inj found)
              subst ends
              refine ⟨by simp, fun none => ?_⟩
              simp [none, differ] at held
          · obtain ⟨⟨inner, kept⟩, scanned, same⟩ := map_eq_some_iff.mp found
            obtain ⟨rfl, rfl⟩ := Prod.mk.inj same
            obtain ⟨within, ends⟩ := ih false inner _ scanned
            refine ⟨succ_le_succ within, fun none => ?_⟩
            by_cases here : ch = closing
            · simp [extractUnpairedBody, here ▸ unescaped, here]
            · simpa [extractUnpairedBody, Extracted.push, unescaped, here] using ends (by simp [none, here])

theorem copied_length (closing : Char) (copied : Nat) (text : List Char)
    (previous : Option Char) (escaped : Bool) (within : copied ≤ text.length) :
    copied ≤ (skipStrings closing previous escaped copied text).body.length := by
  induction copied generalizing text previous with
  | zero => exact Nat.zero_le _
  | succ copied ih =>
    cases text with
    | nil => simp at within
    | cons ch text =>
      have rest := ih text (some ch) (by simpa using within)
      simpa [skipStrings, Extracted.push] using rest

theorem hides_cons (ch : Char) (text : List Char) (previous : Option Char) (escaped next : Bool)
    (reads : ∀ between, Balanced closing closing (if next then '\\' :: between else between) →
      Balanced closing closing (if escaped then '\\' :: ch :: between else ch :: between))
    (hides : HidesDelimiter closing (some ch) next text) :
    HidesDelimiter closing previous escaped (ch :: text) := by
  obtain ⟨between, quote, after, length, rfl, balanced, kind, differ, found⟩ := hides
  refine ⟨ch :: between, quote, after, length, rfl, reads between balanced, kind, differ, ?_⟩
  rwa [getLast?_cons_or]

theorem balanced_behind_backslash (text : List Char) (balanced : Balanced closing closing ('\\' :: text)) :
    ∃ ch rest, text = ch :: rest ∧ Balanced closing closing rest := by
  generalize whole : '\\' :: text = front at balanced
  cases balanced with
  | nil => cases whole
  | plain ch rest unescaped _ _ _ => exact absurd (List.cons.inj whole).1.symm unescaped
  | escaped ch rest balanced => exact ⟨ch, rest, (List.cons.inj whole).2, balanced⟩
  | group _ _ paired _ _ => exact absurd rfl paired

theorem balanced_behind_plain (ch : Char) (text : List Char) (unescaped : ch ≠ '\\')
    (balanced : Balanced closing closing (ch :: text)) : ch ≠ closing ∧ Balanced closing closing text := by
  cases balanced with
  | plain _ _ _ _ notClosing balanced => exact ⟨notClosing, balanced⟩
  | escaped _ _ _ => exact absurd rfl unescaped
  | group _ _ paired _ _ => exact absurd rfl paired

theorem hides_escaped (ch : Char) (text : List Char) (previous : Option Char) :
    HidesDelimiter closing previous true (ch :: text) ↔ HidesDelimiter closing (some ch) false text := by
  constructor
  · rintro ⟨between, quote, after, length, split, balanced, kind, differ, found⟩
    obtain ⟨_, rest, rfl, within⟩ := balanced_behind_backslash between balanced
    obtain ⟨rfl, rfl⟩ := List.cons.inj split
    exact ⟨rest, quote, after, length, rfl, within, kind, differ, by rwa [getLast?_cons_or] at found⟩
  · exact hides_cons ch text previous true false fun between balanced => .escaped ch between balanced

theorem hides_backslash (text : List Char) (previous : Option Char) :
    HidesDelimiter closing previous false ('\\' :: text) ↔ HidesDelimiter closing (some '\\') true text := by
  constructor
  · rintro ⟨between, quote, after, length, split, balanced, kind, apart, found⟩
    cases between with
    | nil =>
      obtain ⟨rfl, -⟩ := List.cons.inj split
      simp at kind
    | cons first between =>
      obtain ⟨rfl, rfl⟩ := List.cons.inj split
      exact ⟨between, quote, after, length, rfl, balanced, kind, apart,
        by rwa [getLast?_cons_or] at found⟩
  · exact hides_cons '\\' text previous false true fun between balanced => balanced

theorem hides_plain (ch : Char) (text : List Char) (previous : Option Char) (unescaped : ch ≠ '\\') :
    HidesDelimiter closing previous false (ch :: text) ↔ ch ≠ closing ∧ (((ch = '"' ∨ ch = '\'') ∧
          ∃ length, scanInnerString previous text ch closing = some (length, true)) ∨
        HidesDelimiter closing (some ch) false text) := by
  constructor
  · rintro ⟨between, quote, after, length, split, balanced, kind, differ, found⟩
    cases between with
    | nil =>
      obtain ⟨rfl, rfl⟩ := List.cons.inj split
      exact ⟨differ, .inl ⟨kind, length, found⟩⟩
    | cons first between =>
      obtain ⟨rfl, rfl⟩ := List.cons.inj split
      obtain ⟨notClosing, within⟩ := balanced_behind_plain ch between unescaped balanced
      exact ⟨notClosing, .inr ⟨between, quote, after, length, rfl, within, kind, differ,
        by rwa [getLast?_cons_or] at found⟩⟩
  · rintro ⟨differ, ⟨kind, length, found⟩ | hides⟩
    · exact ⟨[], ch, text, length, rfl, .nil, kind, differ, found⟩
    · exact hides_cons ch text previous false false
        (fun between balanced => .plain ch between unescaped differ differ balanced) hides

theorem scan_string_of_inner (previous : Option Char) (text : List Char) (quote : Char)
    (length : Nat) (found : scanInnerString previous text quote closing = some (length, true)) :
    scanString quote closing false false text = some (length, true) := by
  unfold scanInnerString at found
  split at found
  · cases found
  split at found
  · cases found
  · split at found
    · cases found
    · exact found

section
variable (ch : Char) (text : List Char) (previous : Option Char) (unescaped : ch ≠ '\\')
    (notClosing : ch ≠ closing)
include ch text previous unescaped notClosing

theorem skip_string (kind : ch = '"' ∨ ch = '\'') (length : Nat)
    (found : scanInnerString previous text ch closing = some (length, true)) :
    skipStrings closing previous false 0 (ch :: text) =
      (skipStrings closing (some ch) false length text).push ch := by
  rw [skipStrings, if_neg unescaped, if_pos ⟨kind, notClosing⟩, found]

theorem skip_plain (noString : (ch = '"' ∨ ch = '\'') →
      ∀ length, scanInnerString previous text ch closing ≠ some (length, true)) :
    skipStrings closing previous false 0 (ch :: text) =
      (skipStrings closing (some ch) false 0 text).push ch := by
  rw [skipStrings, if_neg unescaped]
  by_cases kind : ch = '"' ∨ ch = '\''
  · rw [if_pos ⟨kind, notClosing⟩]
    split
    · next length found => exact absurd found (noString kind length)
    · rfl
  · rw [if_neg fun both => kind both.1, if_neg notClosing]

end

/-- Reading over strings gives the plain body exactly when no string hides a delimiter, and else a
longer one. -/
theorem skip_strings_alike (text : List Char) (previous : Option Char) (escaped : Bool) :
    (¬ HidesDelimiter closing previous escaped text →
      skipStrings closing previous escaped 0 text = extractUnpairedBody closing escaped text) ∧
    (HidesDelimiter closing previous escaped text → (extractUnpairedBody closing escaped text).body.length <
        (skipStrings closing previous escaped 0 text).body.length) := by
  induction text generalizing previous escaped with
  | nil =>
    refine ⟨fun _ => by simp [skipStrings, extractUnpairedBody], ?_⟩
    rintro ⟨between, quote, after, length, split, -⟩
    simp at split
  | cons ch text ih =>
    cases escaped with
    | true =>
      obtain ⟨alike, longer⟩ := ih (some ch) false
      rw [hides_escaped]
      simp only [skipStrings, extractUnpairedBody, Extracted.push, length_cons]
      exact ⟨fun none => by rw [alike none], fun hides => succ_lt_succ (longer hides)⟩
    | false =>
      by_cases backslash : ch = '\\'
      · subst backslash
        obtain ⟨alike, longer⟩ := ih (some '\\') true
        rw [hides_backslash]
        simp only [skipStrings, extractUnpairedBody, ↓reduceIte, Extracted.push, length_cons]
        exact ⟨fun none => by rw [alike none], fun hides => succ_lt_succ (longer hides)⟩
      rw [hides_plain ch text previous backslash]
      by_cases here : ch = closing
      · refine ⟨fun _ => ?_, fun hides => absurd here hides.1⟩
        simp [skipStrings, extractUnpairedBody, here, here ▸ backslash]
      have plain : extractUnpairedBody closing false (ch :: text) =
          (extractUnpairedBody closing false text).push ch := by
        simp [extractUnpairedBody, backslash, here]
      rw [plain]
      by_cases hidden : (ch = '"' ∨ ch = '\'') ∧
          ∃ length, scanInnerString previous text ch closing = some (length, true)
      · obtain ⟨kind, length, found⟩ := hidden
        refine ⟨fun none => absurd ⟨here, .inl ⟨kind, length, found⟩⟩ none, fun _ => ?_⟩
        rw [skip_string ch text previous backslash here kind length found]
        obtain ⟨within, ends⟩ := hidden_delimiter_ends ch here text false length false
          (scan_string_of_inner previous text ch length found)
        have copied := copied_length closing length text (some ch) false within
        exact succ_lt_succ (Nat.lt_of_lt_of_le (ends rfl) copied)
      · have noString : (ch = '"' ∨ ch = '\'') →
            ∀ length, scanInnerString previous text ch closing ≠ some (length, true) :=
          fun kind length found => hidden ⟨kind, length, found⟩
        rw [skip_plain ch text previous backslash here noString]
        obtain ⟨alike, longer⟩ := ih (some ch) false
        refine ⟨fun none => ?_, ?_⟩
        · rw [alike fun hides => none ⟨here, .inr hides⟩]
        · rintro ⟨-, found | hides⟩
          · exact absurd found hidden
          · exact succ_lt_succ (longer hides)

end Strings

theorem validated_modifiers (text modifiers : List Char)
    (valid : validateSubstitutionModifiers text = .ok modifiers) :
    extractSubstitutionModifiers text = modifiers := by
  induction text generalizing modifiers with
  | nil => simpa [validateSubstitutionModifiers, extractSubstitutionModifiers] using valid
  | cons ch text ih =>
    simp only [validateSubstitutionModifiers] at valid
    by_cases letter : ch.isAlpha = true
    · by_cases known : isSubstitutionModifier ch = true
      · simp only [letter, Bool.not_true, Bool.false_eq_true, ↓reduceIte, known] at valid
        cases rest : validateSubstitutionModifiers text with
        | error modifier => simp [rest, Except.map] at valid
        | ok behind =>
          simp only [rest, Except.map, Except.ok.injEq] at valid
          have onward := ih behind rest
          simp only [extractSubstitutionModifiers] at onward ⊢
          rw [takeWhile_cons_of_pos letter, filter_cons_of_pos known, onward, valid]
      · simp [letter, known] at valid
    · split at valid
      · split at valid
        · cases valid
          simp [extractSubstitutionModifiers, letter]
        · cases valid
      · next other => simp [letter] at other

theorem transliteration_modifiers (rest : List Char)
    (valid : (rest.takeWhile Char.isAlphanum).find? (fun modifier => !isTransliterationModifier modifier) =
      none) :
    (rest.takeWhile Char.isAlpha).filter isTransliterationModifier = rest.takeWhile Char.isAlphanum := by
  induction rest with
  | nil => rfl
  | cons ch rest ih =>
    by_cases word : ch.isAlphanum = true
    · rw [takeWhile_cons_of_pos word, find?_cons] at valid
      cases known : isTransliterationModifier ch with
      | false => simp [known] at valid
      | true =>
        have letter : ch.isAlpha = true := by
          have among : ch ∈ "cdsr".toList := by simpa [isTransliterationModifier] using known
          simp only [String.reduceToList, mem_cons, not_mem_nil, or_false] at among
          rcases among with rfl | rfl | rfl | rfl <;> decide
        simp only [known] at valid
        rw [takeWhile_cons_of_pos word, takeWhile_cons_of_pos letter, filter_cons_of_pos known, ih valid]
    · have letter : ¬ ch.isAlpha = true := fun letter => word (by simp [Char.isAlphanum, letter])
      simp [word, letter]

section Agreement
variable (classes : CharClasses)

/-- The lenient reading takes no letter or digit as a replacement's delimiter; that shows unless the
replacement is empty and the modifiers it leaves are no different. -/
def ReplacementAlike (rest : List Char) : Prop :=
  ∀ delimiter ∈ (skipPairedReplacementGap rest).head?, classes.isValidDelimiter delimiter = false →
    ∃ after, skipPairedReplacementGap rest = delimiter :: delimiter :: after ∧
      extractSubstitutionModifiers (delimiter :: delimiter :: after) =
        extractSubstitutionModifiers after

/-- Of a substitution with paired pattern delimiters: the hint finds no later end of the pattern,
and the lenient reading does not pass by the replacement's delimiter. `rest` stands behind the
pattern. -/
def SubstitutionAlike (text : List Char) : Prop :=
  let content := skipPairedReplacementGap (stripSubstitutionPrefix text)
  ∀ opening ∈ content.head?, isPairedOpen opening = true →
    let closing := getClosingDelimiter opening
    let rest := (extractDelimitedContentStrict content opening closing).rest
    (startsWithPairedDelimiter rest = true ∨ ¬ LaterCandidate opening closing rest) ∧
      ReplacementAlike classes rest

def TransliterationAlike (text : List Char) : Prop :=
  let content := skipPairedReplacementGap (stripTransliterationPrefix text)
  ∀ delimiter ∈ content.head?, isPairedOpen delimiter = false →
    ¬ HidesDelimiter delimiter none false (extractDelimitedContentStrict content delimiter delimiter).rest

/-- What a strict substitution has found when it succeeds. -/
theorem substitution_strict_ok (text : List Char) (parts : Parts)
    (ok : extractSubstitutionPartsStrict classes text = .ok parts) : ∃ delimiter pattern replacement,
      (skipPairedReplacementGap (stripSubstitutionPrefix text)).head? = some delimiter ∧
      classes.isValidDelimiter delimiter = true ∧
      extractDelimitedContentStrict (skipPairedReplacementGap (stripSubstitutionPrefix text)) delimiter
        (getClosingDelimiter delimiter) = pattern ∧ pattern.foundClosing = true ∧
      strictReplacement delimiter (getClosingDelimiter delimiter) pattern.rest = .ok replacement ∧
      replacement.foundClosing = true ∧
      validateSubstitutionModifiers replacement.rest = .ok parts.2.2 ∧
      parts = (pattern.body, replacement.body, parts.2.2) := by
  simp only [extractSubstitutionPartsStrict] at ok
  split at ok
  · cases ok
  rename_i delimiter leads
  split at ok
  · cases ok
  rename_i valid
  split at ok
  · cases ok
  rename_i closed
  split at ok
  · cases ok
  rename_i replacement read
  split at ok
  · cases ok
  rename_i ended
  split at ok
  · cases ok
  rename_i modifiers validated
  obtain rfl := Except.ok.inj ok
  exact ⟨delimiter, _, replacement, leads, by simpa using valid, rfl,
    by simpa using closed, read, by simpa using ended, validated, rfl⟩

theorem word_self_delimiting (ch : Char) (word : classes.isAlphanumeric ch = true) :
    ch ≠ '\\' ∧ getClosingDelimiter ch = ch := by
  have other : ∀ mark : Char, mark.toNat < 128 → mark.isAlphanum = false → ch ≠ mark := by
    rintro mark small notWord rfl
    rw [(classes.ascii ch small).2, notWord] at word
    cases word
  refine ⟨other '\\' (by decide) (by decide), ?_⟩
  unfold getClosingDelimiter
  split
  · exact absurd rfl (other '(' (by decide) (by decide))
  · exact absurd rfl (other '[' (by decide) (by decide))
  · exact absurd rfl (other '{' (by decide) (by decide))
  · exact absurd rfl (other '<' (by decide) (by decide))
  · rfl

theorem invalid_delimiter_word (ch : Char) (invalid : classes.isValidDelimiter ch = false)
    (inked : Text.isWhitespace ch = false) : classes.isAlphanumeric ch = true := by
  simpa [CharClasses.isValidDelimiter, inked] using invalid

theorem replacement_alike_iff (opening closing : Char) (paired : opening ≠ closing) (rest : List Char)
    (replacement : Extracted) (modifiers : List Char)
    (read : strictReplacement opening closing rest = .ok replacement)
    (closed : replacement.foundClosing = true)
    (valid : validateSubstitutionModifiers replacement.rest = .ok modifiers) :
    ((lenientReplacement classes rest).1 = replacement.body ∧
        extractSubstitutionModifiers (lenientReplacement classes rest).2 = modifiers) ↔
      ReplacementAlike classes rest := by
  have spelled := validated_modifiers replacement.rest modifiers valid
  simp only [strictReplacement, if_neg paired] at read
  unfold ReplacementAlike lenientReplacement
  generalize skipPairedReplacementGap rest = trimmed at read ⊢
  cases trimmed with
  | nil => simp at read
  | cons second behind =>
    simp only [head?_cons] at read ⊢
    cases inked : Text.isWhitespace second with
    | true => simp [inked] at read
    | false =>
      simp only [inked, Bool.false_eq_true, ↓reduceIte, Except.ok.injEq] at read
      cases accepted : classes.isValidDelimiter second with
      | true => simp [accepted, extractDelimitedContent, read, spelled]
      | false =>
        obtain ⟨plain, self⟩ := word_self_delimiting classes second
          (invalid_delimiter_word classes second accepted inked)
        rw [self] at read
        simp only [accepted, Bool.not_false, ↓reduceIte, mem_def, some.injEq, forall_eq', forall_const]
        constructor
        · rintro ⟨empty, same⟩
          obtain ⟨body, after, extracted, split, -⟩ :=
            extract_closed plain (second :: behind) (by rw [read]; exact closed)
          rw [read] at extracted
          subst extracted
          obtain rfl : [] = body := empty
          refine ⟨after, split, ?_⟩
          rw [show second :: second :: after = second :: behind from split.symm, same]
          exact spelled.symm
        · rintro ⟨after, split, same⟩
          have extracted := extract_balanced plain plain [] after (.nil : Balanced second second [])
          rw [show [second] ++ second :: after = second :: behind from split.symm, read] at extracted
          subst extracted
          refine ⟨rfl, ?_⟩
          rw [split, same]
          exact spelled

section
variable (text : List Char) (parts : Parts)
include text parts

theorem substitution_agrees (ok : extractSubstitutionPartsStrict classes text = .ok parts) :
    extractSubstitutionParts classes text = parts ↔ SubstitutionAlike classes text := by
  obtain ⟨delimiter, pattern, replacement, leads, valid, scanned, closed, read, ended, validated, whole⟩ :=
    substitution_strict_ok classes text parts ok
  have spelled := validated_modifiers replacement.rest _ validated
  by_cases paired : delimiter = getClosingDelimiter delimiter
  · have filled : pattern.rest ≠ [] := by
      intro empty
      simp [strictReplacement, ← paired, empty] at read
    have same : extractUnpairedBodySkipStrings pattern.rest (getClosingDelimiter delimiter) =
        replacement := by
      simpa [strictReplacement, if_pos paired, filled] using read
    have lenient : extractSubstitutionParts classes text = parts := by
      simp only [extractSubstitutionParts, leads, valid, scanned, filled, ne_eq, same, spelled]
      rw [if_neg (not_not.mpr paired)]
      exact whole.symm
    refine ⟨fun _ => ?_, fun _ => lenient⟩
    intro opening head pairedOpen
    obtain rfl := some.inj (leads.symm.trans head)
    simp [isPairedOpen, ← paired] at pairedOpen
  · have plain : delimiter ≠ '\\' := by
      rintro rfl
      exact paired rfl
    have opens : isPairedOpen delimiter = true := by simpa [isPairedOpen] using Ne.symm paired
    obtain ⟨body, rest, extracted, split, balanced⟩ := extract_closed plain
      (skipPairedReplacementGap (stripSubstitutionPrefix text)) (by rw [scanned]; exact closed)
    obtain rfl := scanned.symm.trans extracted
    have replaced := replacement_alike_iff classes delimiter (getClosingDelimiter delimiter) paired rest
      replacement _ read ended validated
    obtain ⟨stops, hintStops⟩ := hint_pattern plain (closing_plain delimiter plain) paired body rest balanced
    have lenient : extractSubstitutionParts classes text = ((extractSubstitutionPatternWithReplacementHint
            (skipPairedReplacementGap (stripSubstitutionPrefix text)) delimiter
            (getClosingDelimiter delimiter)).body,
          (lenientReplacement classes (extractSubstitutionPatternWithReplacementHint
            (skipPairedReplacementGap (stripSubstitutionPrefix text)) delimiter
            (getClosingDelimiter delimiter)).rest).1,
          extractSubstitutionModifiers (lenientReplacement classes
            (extractSubstitutionPatternWithReplacementHint
              (skipPairedReplacementGap (stripSubstitutionPrefix text)) delimiter
              (getClosingDelimiter delimiter)).rest).2) := by
      simp [extractSubstitutionParts, leads, valid, paired]
    rw [← split] at stops hintStops
    rw [lenient, whole]
    simp only [SubstitutionAlike, leads, mem_def, some.injEq, forall_eq', opens,
      forall_const, extracted, ← replaced]
    constructor
    · intro same
      obtain ⟨sameBody, sameRest⟩ := Prod.mk.inj same
      have alike := hintStops sameBody
      rw [stops alike] at sameRest
      obtain ⟨sameReplacement, sameModifiers⟩ := Prod.mk.inj sameRest
      exact ⟨alike, sameReplacement, sameModifiers⟩
    · rintro ⟨alike, sameReplacement, sameModifiers⟩
      rw [stops alike, sameReplacement, sameModifiers]

/-- What a strict transliteration has found when it succeeds. -/
theorem transliteration_strict_ok (ok : extractTransliterationPartsStrict classes text = .ok parts) :
    ∃ delimiter search replacement,
      (skipPairedReplacementGap (stripTransliterationPrefix text)).head? = some delimiter ∧
      classes.isValidDelimiter delimiter = true ∧
      extractDelimitedContentStrict (skipPairedReplacementGap (stripTransliterationPrefix text)) delimiter
        (getClosingDelimiter delimiter) = search ∧
      strictTransliterationReplacement classes delimiter (getClosingDelimiter delimiter) search.rest =
        .ok replacement ∧
      (replacement.rest.takeWhile Char.isAlphanum).find?
        (fun modifier => !isTransliterationModifier modifier) = none ∧
      parts = (search.body, replacement.body, replacement.rest.takeWhile Char.isAlphanum) := by
  simp only [extractTransliterationPartsStrict] at ok
  split at ok
  · cases ok
  rename_i delimiter leads
  split at ok
  · cases ok
  rename_i valid
  split at ok
  · cases ok
  split at ok
  · cases ok
  rename_i replacement read
  split at ok
  · cases ok
  split at ok
  · cases ok
  rename_i validated
  obtain rfl := Except.ok.inj ok
  exact ⟨delimiter, _, replacement, leads, by simpa using valid, rfl, read, validated,
    rfl⟩

theorem transliteration_agrees (ok : extractTransliterationPartsStrict classes text = .ok parts) :
    extractTransliterationParts classes text = parts ↔ TransliterationAlike text := by
  obtain ⟨delimiter, search, replacement, leads, valid, scanned, read, validated, whole⟩ :=
    transliteration_strict_ok classes text parts ok
  have spelled := transliteration_modifiers replacement.rest validated
  simp only [strictTransliterationReplacement] at read
  simp only [extractTransliterationParts, TransliterationAlike, leads, valid,
    extractDelimitedContent, scanned, mem_def,
    some.injEq, forall_eq']
  by_cases paired : delimiter = getClosingDelimiter delimiter
  · have unpaired : isPairedOpen delimiter = false := by simp [isPairedOpen, ← paired]
    rw [← paired] at scanned read ⊢
    simp only [↓reduceIte] at read
    split at read
    · cases read
    rename_i filled
    obtain rfl := Except.ok.inj read
    simp only [↓reduceIte, if_neg filled, unpaired, forall_const, scanned]
    obtain ⟨alike, longer⟩ := @skip_strings_alike delimiter search.rest none false
    constructor
    · intro same hides
      rw [whole] at same
      have shorter := longer hides
      obtain ⟨-, sameRest⟩ := Prod.mk.inj same
      rw [(Prod.mk.inj sameRest).1] at shorter
      exact Nat.lt_irrefl _ shorter
    · intro none
      rw [← alike none, whole]
      exact congrArg (fun modifiers => (search.body, _, modifiers)) spelled
  · have opens : isPairedOpen delimiter = true := by simpa [isPairedOpen] using Ne.symm paired
    simp only [if_neg paired] at read ⊢
    refine iff_of_true ?_ (by simp [opens])
    split at read
    · cases read
    rename_i second head
    split at read
    · cases read
    rename_i accepted
    obtain rfl := Except.ok.inj read
    simp only [Bool.not_eq_true, Bool.not_eq_false'] at accepted
    simp only [accepted, whole]
    exact congrArg (fun modifiers => (search.body, _, modifiers)) spelled

theorem regex_agrees (ok : extractRegexPartsStrict classes text = .ok parts) :
    (extractRegexParts classes text).1 = parts.1 ∧ (extractRegexParts classes text).2.1 = parts.2.1 := by
  simp only [extractRegexPartsStrict] at ok
  unfold extractRegexParts
  split at ok
  · cases ok
  rename_i delimiter leads
  split at ok
  · cases ok
  split at ok
  · cases ok
  · obtain rfl := Except.ok.inj ok
    simp [leads]

end

/-- Where a strict reading succeeds, the lenient one gives the same parts under exactly
these conditions, and the same pattern and body of a match always. -/
theorem strict_parts_agree (text : List Char) :
    (∀ parts, extractSubstitutionPartsStrict classes text = .ok parts →
      (extractSubstitutionParts classes text = parts ↔ SubstitutionAlike classes text)) ∧
    (∀ parts, extractTransliterationPartsStrict classes text = .ok parts →
      (extractTransliterationParts classes text = parts ↔ TransliterationAlike text)) ∧
    (∀ parts, extractRegexPartsStrict classes text = .ok parts →
      (extractRegexParts classes text).1 = parts.1 ∧
        (extractRegexParts classes text).2.1 = parts.2.1) :=
  ⟨fun parts ok => substitution_agrees classes text parts ok,
    fun parts ok => transliteration_agrees classes text parts ok,
    fun parts ok => regex_agrees classes text parts ok⟩

end Agreement

theorem strict_parts_agree_braces :
    extractSubstitutionParts asciiClasses "s\x7ba\x7d/b/g".toList = (['a'], ['b'], ['g']) := by
  have agrees := (strict_parts_agree asciiClasses "s\x7ba\x7d/b/g".toList).1
    (['a'], ['b'], ['g']) (by decide)
  refine agrees.mpr ?_
  have content : skipPairedReplacementGap (stripSubstitutionPrefix "s\x7ba\x7d/b/g".toList) =
      "\x7ba\x7d/b/g".toList := by decide
  have pattern : extractDelimitedContentStrict "\x7ba\x7d/b/g".toList '{' '}' =
      ⟨['a'], "/b/g".toList, true⟩ := by decide
  intro opening leads _
  rw [content] at leads ⊢
  obtain rfl : '{' = opening := some.inj leads
  simp only [show getClosingDelimiter '{' = '}' from rfl, pattern]
  refine ⟨.inr ?_, ?_⟩
  · rintro ⟨depth, between, after, -, split, -⟩
    have among : '}' ∈ "/b/g".toList := by rw [split]; simp
    exact absurd among (by decide)
  · intro delimiter second invalid
    obtain rfl : '/' = delimiter := some.inj second
    exact absurd invalid (by decide)

/-- A later brace is taken for the pattern's end, the delimiter `x` is passed by, and one inside a
string ends the replacement. -/
theorem lenient_parts_differ :
    ¬ (∀ classes text parts, extractSubstitutionPartsStrict classes text = .ok parts →
      extractSubstitutionParts classes text = parts) ∧
    ¬ ∀ classes text parts, extractTransliterationPartsStrict classes text = .ok parts →
      extractTransliterationParts classes text = parts := by
  constructor
  · intro every
    have same := every asciiClasses "s\x7ba\x7d/b\x7d\x7bc/".toList
      (['a'], "b\x7d\x7bc".toList, []) (by decide)
    exact absurd same (by decide)
  · intro every
    have same := every asciiClasses "tr/x/\"a/b\"/".toList (['x'], "\"a/b\"".toList, []) (by decide)
    exact absurd same (by decide)

example : extractSubstitutionPartsStrict asciiClasses "s\x7ba\x7dxbx".toList = .ok (['a'], ['b'], []) ∧
    extractSubstitutionParts asciiClasses "s\x7ba\x7dxbx".toList = (['a'], [], ['x', 'x']) := by decide

end PerlLsp.QuoteParts
