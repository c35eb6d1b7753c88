import Mathlib.Data.List.Infix

/-! The scan for the body of a quote-like operator (`extract_delimited_content_strict`
in syntax/quote.rs) and the texts it is a scan for: balanced in the delimiters that no
backslash protects. Where both delimiters are the same nothing nests. -/
namespace PerlLsp.QuoteBody

def getClosingDelimiter : Char → Char
  | '(' => ')'
  | '[' => ']'
  | '{' => '}'
  | '<' => '>'
  | ch => ch

def isPairedOpen (ch : Char) : Bool := getClosingDelimiter ch != ch

structure Extracted where
  body : List Char
  rest : List Char
  foundClosing : Bool
  deriving DecidableEq

def Extracted.push (ch : Char) (extracted : Extracted) : Extracted :=
  { extracted with body := ch :: extracted.body }

def scanDelimited (opening closing : Char) : Nat → Bool → List Char → Extracted
  | _, _, [] => ⟨[], [], false⟩
  | depth, true, ch :: text => (scanDelimited opening closing depth false text).push ch
  | depth, false, ch :: text =>
    if ch = '\\' ∧ opening ≠ '\\' then (scanDelimited opening closing depth true text).push ch
    else if ch = opening ∧ opening ≠ closing then
      (scanDelimited opening closing (depth + 1) false text).push ch
    else if ch = closing then
      if opening ≠ closing then
        if depth - 1 = 0 then ⟨[], text, true⟩
        else (scanDelimited opening closing (depth - 1) false text).push ch
      else ⟨[], text, true⟩
    else (scanDelimited opening closing depth false text).push ch

def extractDelimitedContentStrict (text : List Char) (opening closing : Char) : Extracted :=
  match text with
  | [] => ⟨[], [], false⟩
  | ch :: behind =>
    if ch ≠ opening then ⟨[], text, false⟩
    else scanDelimited opening closing (if opening ≠ closing then 1 else 0) false behind

inductive Balanced (opening closing : Char) : List Char → Prop
  | nil : Balanced opening closing []
  | plain (ch : Char) (rest : List Char) (unescaped : ch ≠ '\\') (notOpening : ch ≠ opening)
      (notClosing : ch ≠ closing) (balanced : Balanced opening closing rest) :
      Balanced opening closing (ch :: rest)
  | escaped (ch : Char) (rest : List Char) (balanced : Balanced opening closing rest) :
      Balanced opening closing ('\\' :: ch :: rest)
  | group (inner rest : List Char) (paired : opening ≠ closing)
      (within : Balanced opening closing inner) (balanced : Balanced opening closing rest) :
      Balanced opening closing (opening :: inner ++ closing :: rest)

/-- Balanced texts with a closing delimiter between each two: what is read at a `depth` of open
groups. -/
inductive Closes (opening closing : Char) : Nat → List Char → Prop
  | last (text : List Char) (balanced : Balanced opening closing text) : Closes opening closing 0 text
  | closed (depth : Nat) (inner rest : List Char) (balanced : Balanced opening closing inner)
      (closes : Closes opening closing depth rest) :
      Closes opening closing (depth + 1) (inner ++ closing :: rest)

section Scan
variable {opening closing : Char}

namespace Closes

theorem lead {depth : Nat} {text : List Char} (front : List Char)
    (extend : ∀ rest, Balanced opening closing rest → Balanced opening closing (front ++ rest))
    (closes : Closes opening closing depth text) : Closes opening closing depth (front ++ text) := by
  cases closes with
  | last text balanced => exact .last _ (extend text balanced)
  | closed depth inner rest balanced closes =>
    rw [← List.append_assoc]
    exact .closed depth _ rest (extend inner balanced) closes

theorem openGroup {depth : Nat} {text : List Char} (paired : opening ≠ closing)
    (closes : Closes opening closing (depth + 1) text) : Closes opening closing depth (opening :: text) := by
  cases closes with
  | closed _ inner rest balanced closes =>
    have grouped := closes.lead (opening :: inner ++ [closing]) (fun rest behind => by
      simpa using Balanced.group inner rest paired balanced behind)
    simpa using grouped

end Closes

@[simp] theorem scan_escaped (depth : Nat) (ch : Char) (text : List Char) :
    scanDelimited opening closing depth true (ch :: text) =
      (scanDelimited opening closing depth false text).push ch := by
  simp only [scanDelimited]

inductive Reads (opening closing : Char) (depth : Nat) (ch : Char) (text : List Char) : Prop
  | backslash (same : ch = '\\')
      (scans : scanDelimited opening closing depth false (ch :: text) =
        (scanDelimited opening closing depth true text).push ch)
  | opening (same : ch = opening) (paired : opening ≠ closing)
      (scans : scanDelimited opening closing depth false (ch :: text) =
        (scanDelimited opening closing (depth + 1) false text).push ch)
  | closing (same : ch = closing) (paired : opening ≠ closing) (deep : depth - 1 ≠ 0)
      (scans : scanDelimited opening closing depth false (ch :: text) =
        (scanDelimited opening closing (depth - 1) false text).push ch)
  | last (same : ch = closing) (outermost : opening ≠ closing → depth - 1 = 0)
      (scans : scanDelimited opening closing depth false (ch :: text) = ⟨[], text, true⟩)
  | plain (unescaped : ch ≠ '\\') (notOpening : ch ≠ opening) (notClosing : ch ≠ closing)
      (scans : scanDelimited opening closing depth false (ch :: text) =
        (scanDelimited opening closing depth false text).push ch)

theorem reads (plainOpening : opening ≠ '\\') (depth : Nat) (ch : Char) (text : List Char) :
    Reads opening closing depth ch text := by
  by_cases escape : ch = '\\'
  · exact .backslash escape (by simp [scanDelimited, escape, plainOpening])
  by_cases opens : ch = opening ∧ opening ≠ closing
  · exact .opening opens.1 opens.2 (by
      rw [scanDelimited, if_neg (fun both => escape both.1), if_pos opens])
  have skip := scanDelimited.eq_3 opening closing depth ch text
  rw [if_neg (fun both => escape both.1), if_neg opens] at skip
  by_cases closes : ch = closing
  · rw [if_pos closes] at skip
    by_cases paired : opening ≠ closing
    · rw [if_pos paired] at skip
      by_cases outermost : depth - 1 = 0
      · rw [if_pos outermost] at skip
        exact .last closes (fun _ => outermost) skip
      · rw [if_neg outermost] at skip
        exact .closing closes paired outermost skip
    · rw [if_neg paired] at skip
      exact .last closes (fun differ => absurd differ paired) skip
  · rw [if_neg closes] at skip
    refine .plain escape (fun same => ?_) closes skip
    exact opens ⟨same, fun both => closes (same.trans both)⟩

theorem scan_balanced (plainOpening : opening ≠ '\\') (plainClosing : closing ≠ '\\')
    (body : List Char) (balanced : Balanced opening closing body) (depth : Nat)
    (deep : opening ≠ closing → 0 < depth) (text : List Char) :
    scanDelimited opening closing depth false (body ++ text) =
      { scanDelimited opening closing depth false text with
        body := body ++ (scanDelimited opening closing depth false text).body } := by
  induction balanced generalizing depth text with
  | nil => rfl
  | plain ch rest unescaped notOpening notClosing _ ih =>
    simp [scanDelimited, unescaped, notOpening, notClosing, ih depth deep text, Extracted.push]
  | escaped ch rest _ ih =>
    simp [scanDelimited, plainOpening, ih depth deep text, Extracted.push]
  | group inner rest paired _ _ within ih =>
    have positive := deep paired
    have inside := within (depth + 1) (fun _ => Nat.succ_pos depth) (closing :: (rest ++ text))
    have behind := ih depth deep text
    have back : depth ≠ 0 := by omega
    simp [scanDelimited, plainOpening, plainClosing, paired, paired.symm, inside, behind, back,
      Extracted.push]

theorem scan_unclosed (plainOpening : opening ≠ '\\') (text : List Char) (depth : Nat) (escaped : Bool)
    (unclosed : (scanDelimited opening closing depth escaped text).foundClosing = false) :
    scanDelimited opening closing depth escaped text = ⟨text, [], false⟩ := by
  induction text generalizing depth escaped with
  | nil => simp [scanDelimited]
  | cons ch text ih =>
    cases escaped with
    | true =>
      rw [scan_escaped] at unclosed ⊢
      rw [ih depth false unclosed]
      rfl
    | false =>
      cases reads plainOpening depth ch text with
      | backslash same scans =>
        rw [scans] at unclosed ⊢
        rw [ih depth true unclosed]
        rfl
      | opening same paired scans =>
        rw [scans] at unclosed ⊢
        rw [ih (depth + 1) false unclosed]
        rfl
      | closing same paired deep scans =>
        rw [scans] at unclosed ⊢
        rw [ih (depth - 1) false unclosed]
        rfl
      | last same outermost scans =>
        rw [scans] at unclosed
        cases unclosed
      | plain unescaped notOpening notClosing scans =>
        rw [scans] at unclosed ⊢
        rw [ih depth false unclosed]
        rfl

/-- What precedes the closing delimiter that ends the scan. The backslash before an escaped scalar
has been read already. -/
theorem scan_closed (plainOpening : opening ≠ '\\') (text : List Char) (level depth : Nat)
    (escaped : Bool) (nested : opening ≠ closing → level = depth + 1) (flat : opening = closing → depth = 0)
    (found : (scanDelimited opening closing level escaped text).foundClosing = true) :
    ∃ body rest, scanDelimited opening closing level escaped text = ⟨body, rest, true⟩ ∧
      text = body ++ closing :: rest ∧
      Closes opening closing depth (if escaped then '\\' :: body else body) := by
  induction text generalizing level depth escaped with
  | nil => simp [scanDelimited] at found
  | cons ch text ih =>
    cases escaped with
    | true =>
      rw [scan_escaped] at found ⊢
      obtain ⟨body, rest, scanned, split, closes⟩ := ih level depth false nested flat found
      refine ⟨ch :: body, rest, by rw [scanned]; rfl, by rw [split]; rfl, ?_⟩
      exact closes.lead ['\\', ch] (fun rest balanced => .escaped ch rest balanced)
    | false =>
      cases reads plainOpening level ch text with
      | backslash same scans =>
        rw [scans] at found ⊢
        obtain ⟨body, rest, scanned, split, closes⟩ := ih level depth true nested flat found
        subst same
        exact ⟨'\\' :: body, rest, by rw [scanned]; rfl, by rw [split]; rfl, closes⟩
      | opening same paired scans =>
        rw [scans] at found ⊢
        obtain ⟨body, rest, scanned, split, closes⟩ := ih (level + 1) (depth + 1) false
          (fun _ => congrArg (· + 1) (nested paired)) (fun both => absurd both paired) found
        subst same
        exact ⟨ch :: body, rest, by rw [scanned]; rfl, by rw [split]; rfl, closes.openGroup paired⟩
      | closing same paired deep scans =>
        have within := nested paired
        obtain ⟨outer, rfl⟩ : ∃ outer, depth = outer + 1 :=
          Nat.exists_eq_succ_of_ne_zero (by omega)
        rw [scans] at found ⊢
        obtain ⟨body, rest, scanned, split, closes⟩ := ih (level - 1) outer false
          (fun _ => by omega) (fun both => absurd both paired) found
        subst same
        exact ⟨ch :: body, rest, by rw [scanned]; rfl, by rw [split]; rfl, .closed outer [] body .nil closes⟩
      | last same outermost scans =>
        have outer : depth = 0 := by
          by_cases paired : opening = closing
          · exact flat paired
          · have within := nested paired
            have none := outermost paired
            omega
        subst outer same
        exact ⟨[], text, scans, rfl, .last [] .nil⟩
      | plain unescaped notOpening notClosing scans =>
        rw [scans] at found ⊢
        obtain ⟨body, rest, scanned, split, closes⟩ := ih level depth false nested flat found
        exact ⟨ch :: body, rest, by rw [scanned]; rfl, by rw [split]; rfl,
          closes.lead [ch] (fun rest balanced =>
            .plain ch rest unescaped notOpening notClosing balanced)⟩

def outerLevel (opening closing : Char) : Nat := if opening ≠ closing then 1 else 0

theorem extract_behind_opening (text : List Char) :
    extractDelimitedContentStrict (opening :: text) opening closing =
      scanDelimited opening closing (outerLevel opening closing) false text := by
  simp [extractDelimitedContentStrict, outerLevel]

theorem extract_balanced (plainOpening : opening ≠ '\\') (plainClosing : closing ≠ '\\')
    (body rest : List Char) (balanced : Balanced opening closing body) :
    extractDelimitedContentStrict (opening :: body ++ closing :: rest) opening closing =
      ⟨body, rest, true⟩ := by
  have level : opening ≠ closing → outerLevel opening closing = 1 := fun paired => if_pos paired
  rw [List.cons_append, extract_behind_opening,
    scan_balanced plainOpening plainClosing body balanced _ (fun paired => by rw [level paired]; decide)]
  have ends : scanDelimited opening closing (outerLevel opening closing) false (closing :: rest) =
      ⟨[], rest, true⟩ := by
    by_cases paired : opening = closing
    · simp [scanDelimited, plainClosing, paired]
    · simp [scanDelimited, plainClosing, level paired, Ne.symm paired, paired]
  rw [ends]
  simp

theorem balanced_unique (plainOpening : opening ≠ '\\') (plainClosing : closing ≠ '\\')
    (left right leftRest rightRest : List Char) (leftBalanced : Balanced opening closing left)
    (rightBalanced : Balanced opening closing right)
    (same : left ++ closing :: leftRest = right ++ closing :: rightRest) :
    left = right ∧ leftRest = rightRest := by
  have whole := extract_balanced plainOpening plainClosing left leftRest leftBalanced
  rw [List.cons_append, same, ← List.cons_append,
    extract_balanced plainOpening plainClosing right rightRest rightBalanced] at whole
  simpa [eq_comm] using whole

theorem extract_closed (plainOpening : opening ≠ '\\') (text : List Char)
    (found : (extractDelimitedContentStrict text opening closing).foundClosing = true) :
    ∃ body rest, extractDelimitedContentStrict text opening closing = ⟨body, rest, true⟩ ∧
      text = opening :: body ++ closing :: rest ∧ Balanced opening closing body := by
  cases text with
  | nil => simp [extractDelimitedContentStrict] at found
  | cons ch text =>
    by_cases opens : ch = opening
    · subst opens
      rw [extract_behind_opening] at found ⊢
      obtain ⟨body, rest, scanned, split, closes⟩ := scan_closed plainOpening text _ 0 false
        (fun paired => if_pos paired) (fun _ => rfl) found
      refine ⟨body, rest, scanned, by rw [split]; rfl, ?_⟩
      cases closes with
      | last _ balanced => exact balanced
    · simp [extractDelimitedContentStrict, opens] at found

end Scan

theorem closing_plain (opening : Char) (plain : opening ≠ '\\') : getClosingDelimiter opening ≠ '\\' := by
  unfold getClosingDelimiter
  split
  · decide
  · decide
  · decide
  · decide
  · exact plain

/-- The closing delimiter is found exactly when a balanced body and it follow the opening one; the
body is then the shortest such body, whatever is appended, and otherwise it is all behind the
opening delimiter. -/
theorem delimited_body (text : List Char) (opening : Char) (plain : opening ≠ '\\') :
    let closing := getClosingDelimiter opening
    let extracted := extractDelimitedContentStrict text opening closing
    (extracted.foundClosing = true ↔
      ∃ body, Balanced opening closing body ∧ opening :: body ++ [closing] <+: text) ∧
    (extracted.foundClosing = true → Balanced opening closing extracted.body ∧
      text = opening :: extracted.body ++ closing :: extracted.rest ∧
      (∀ body, Balanced opening closing body → opening :: body ++ [closing] <+: text →
        extracted.body.length ≤ body.length) ∧
      ∀ more, extractDelimitedContentStrict (text ++ more) opening closing =
        { extracted with rest := extracted.rest ++ more }) ∧
    ∀ behind, text = opening :: behind → extracted.foundClosing = false →
      extracted = ⟨behind, [], false⟩ := by
  intro closing extracted
  have plainClosing : closing ≠ '\\' := closing_plain opening plain
  have closes : ∀ body, Balanced opening closing body → opening :: body ++ [closing] <+: text →
      ∃ rest, extracted = ⟨body, rest, true⟩ := by
    rintro body balanced ⟨rest, rfl⟩
    refine ⟨rest, ?_⟩
    have whole := extract_balanced plain plainClosing body rest balanced
    simpa [extracted] using whole
  refine ⟨⟨?_, ?_⟩, ?_, ?_⟩
  · intro found
    obtain ⟨body, rest, -, split, balanced⟩ := extract_closed plain text found
    exact ⟨body, balanced, rest, by simp [split]⟩
  · rintro ⟨body, balanced, leads⟩
    obtain ⟨rest, same⟩ := closes body balanced leads
    rw [same]
  · intro found
    obtain ⟨body, rest, same, split, balanced⟩ := extract_closed plain text found
    rw [show extracted = ⟨body, rest, true⟩ from same]
    refine ⟨balanced, split, ?_, ?_⟩
    · intro other otherBalanced leads
      obtain ⟨otherRest, otherSame⟩ := closes other otherBalanced leads
      rw [show extracted = ⟨body, rest, true⟩ from same] at otherSame
      exact Nat.le_of_eq (congrArg (fun found => found.body.length) otherSame)
    · intro more
      have longer := extract_balanced plain plainClosing body (rest ++ more) balanced
      rw [split]
      simpa using longer
  · rintro behind rfl unclosed
    have scanned : extracted = scanDelimited opening closing _ false behind :=
      extract_behind_opening behind
    rw [scanned] at unclosed ⊢
    exact scan_unclosed plain behind _ false unclosed

theorem delimited_body_nested :
    (extractDelimitedContentStrict "\x7ba\x7b\\\x7d\x7db\x7dc".toList '{' '}').foundClosing = true ∧
      ∀ more, extractDelimitedContentStrict ("\x7ba\x7b\\\x7d\x7db\x7dc".toList ++ more) '{' '}' =
        ⟨"a\x7b\\\x7d\x7db".toList, 'c' :: more, true⟩ := by
  have whole := delimited_body "\x7ba\x7b\\\x7d\x7db\x7dc".toList '{' (by decide)
  have found : (extractDelimitedContentStrict "\x7ba\x7b\\\x7d\x7db\x7dc".toList
    '{' '}').foundClosing = true := by decide
  exact ⟨found, (whole.2.1 found).2.2.2⟩

end PerlLsp.QuoteBody
