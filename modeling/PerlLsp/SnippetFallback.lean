import PerlLsp.Text

/-! The plain text of a snippet in completion_item/snippet.rs, over the printed form of a
snippet tree. A place in the body is the list of the characters from there on. Behind the
first choice of a construct the renderer skips to the next closing brace that no backslash
stands before, and a later choice may contain one. -/
namespace PerlLsp.SnippetFallback
open Text List

section Rendering

def push (front : List Char) (rendered : List Char × List Char) : List Char × List Char :=
  (front ++ rendered.1, rendered.2)

def isNameStart (c : Char) : Bool := c.isAlpha || c == '_'

def isNameContinue (c : Char) : Bool := c.isAlphanum || c == '_'

/-- What stands just past the next unescaped closing brace. -/
def skipToClose : List Char → List Char
  | '\\' :: _ :: rest => skipToClose rest
  | c :: rest => if c = '}' then rest else skipToClose rest
  | [] => []

/-- The loop of `render_braced` over the first choice. -/
def renderChoice : List Char → List Char × List Char
  | '\\' :: escaped :: rest =>
    push (if escaped ∈ [',', '|', '\\'] then [escaped] else ['\\', escaped]) (renderChoice rest)
  | ['\\'] => ([], [])
  | c :: rest => if c = ',' ∨ c = '|' then ([], c :: rest) else push [c] (renderChoice rest)
  | [] => ([], [])

/-- The match of `render_braced` on what follows the name; a default is rendered by `nested`. -/
def renderNamed (nested : List Char → List Char × List Char) :
    List Char → Option (List Char × List Char)
  | '}' :: rest => some ([], rest)
  | ':' :: rest =>
    match nested rest with
    | (out, '}' :: behind) => some (out, behind)
    | unclosed => some unclosed
  | '|' :: rest => some ((renderChoice rest).1, skipToClose (renderChoice rest).2)
  | '/' :: rest => some ([], skipToClose ('/' :: rest))
  | _ => none

def renderBraced (nested : List Char → List Char × List Char) :
    List Char → Option (List Char × List Char)
  | c :: rest =>
    if isNameStart c || c.isDigit then renderNamed nested (rest.dropWhile isNameContinue) else none
  | [] => none

def renderDollar (nested : List Char → List Char × List Char) :
    List Char → Option (List Char × List Char)
  | '{' :: rest => renderBraced nested rest
  | c :: rest =>
    if c.isDigit then some ([], rest.dropWhile Char.isDigit)
    else if isNameStart c then some ([], rest.dropWhile isNameContinue)
    else none
  | [] => none

def renderUntilBrace : Nat → Bool → List Char → List Char × List Char
  | 0, _, chars => ([], chars)
  | fuel + 1, nested, chars =>
    match chars with
    | [] => ([], [])
    | ['\\'] => (['\\'], [])
    | '\\' :: escaped :: rest =>
      push (if escaped ∈ ['$', '}', '\\'] then [escaped] else ['\\', escaped])
        (renderUntilBrace fuel nested rest)
    | c :: rest =>
      if c = '}' ∧ nested = true then ([], c :: rest)
      else if c = '$' then
        match renderDollar (renderUntilBrace fuel true) rest with
        | some (out, behind) => push out (renderUntilBrace fuel nested behind)
        | none => push ['$'] (renderUntilBrace fuel nested rest)
      else push [c] (renderUntilBrace fuel nested rest)

/-- Every turn of a loop consumes a character, so the length of the body is fuel enough. -/
def renderSnippetPlaintext (body : List Char) : List Char :=
  (renderUntilBrace body.length false body).1

end Rendering

section Printing

/-- A snippet tree, one node in front of the rest. -/
inductive Snippet where
  | done
  | text (c : Char) (rest : Snippet)
  | tabStop (n : Nat) (rest : Snippet)
  | placeholder (n : Nat) (default rest : Snippet)
  | choice (n : Nat) (first : List Char) (others : List (List Char)) (rest : Snippet)

def escape (special text : List Char) : List Char :=
  text.flatMap fun c => if c ∈ special then ['\\', c] else [c]

def printChoice (choice : List Char) : List Char := escape [',', '|', '\\'] choice

def Snippet.print : Snippet → List Char
  | .done => []
  | .text c rest => escape ['$', '}', '\\'] [c] ++ rest.print
  | .tabStop n rest => '$' :: '{' :: (decimal n ++ '}' :: rest.print)
  | .placeholder n default rest =>
    '$' :: '{' :: (decimal n ++ ':' :: (default.print ++ '}' :: rest.print))
  | .choice n first others rest =>
    '$' :: '{' :: (decimal n ++ '|' :: (printChoice first ++
      (others.flatMap (fun other => ',' :: printChoice other) ++ '|' :: '}' :: rest.print)))

def Snippet.plain : Snippet → List Char
  | .done => []
  | .text c rest => c :: rest.plain
  | .tabStop _ rest => rest.plain
  | .placeholder _ default rest => default.plain ++ rest.plain
  | .choice _ first _ rest => first ++ rest.plain

/-- No choice behind the first of its construct contains a closing brace. -/
def Snippet.Braceless : Snippet → Prop
  | .done => True
  | .text _ rest | .tabStop _ rest => rest.Braceless
  | .placeholder _ default rest => default.Braceless ∧ rest.Braceless
  | .choice _ _ others rest => (∀ other ∈ others, '}' ∉ other) ∧ rest.Braceless

end Printing

variable {text tail : List Char}

theorem push_push (front more : List Char) (rendered : List Char × List Char) :
    push front (push more rendered) = push (front ++ more) rendered := by
  simp [push]

theorem skip_plain {c : Char} (plain : c ≠ '\\') (inside : c ≠ '}') :
    skipToClose (c :: tail) = skipToClose tail := by
  cases tail <;> simp [skipToClose, plain, inside]

theorem skip_choice (braceless : '}' ∉ text) :
    skipToClose (printChoice text ++ tail) = skipToClose tail := by
  induction text with
  | nil => rfl
  | cons c rest ih =>
    obtain ⟨other, more⟩ := not_or.mp (mt mem_cons.mpr braceless)
    have skipped := ih more
    rw [printChoice, escape, flatMap_cons, append_assoc]
    split
    · exact skipped
    · rename_i bare
      exact (skip_plain (by rintro rfl; simp at bare) (Ne.symm other)).trans skipped

theorem skip_others {others : List (List Char)} (braceless : ∀ other ∈ others, '}' ∉ other) :
    skipToClose (others.flatMap (fun other => ',' :: printChoice other) ++ '|' :: '}' :: tail) =
      tail := by
  induction others with
  | nil => rfl
  | cons other rest ih =>
    obtain ⟨first, more⟩ := forall_mem_cons.mp braceless
    rw [flatMap_cons, append_assoc, cons_append, skip_plain (by decide) (by decide), skip_choice first]
    exact ih more

theorem first_choice {stop : Char} (stops : stop = ',' ∨ stop = '|') :
    renderChoice (printChoice text ++ stop :: tail) = (text, stop :: tail) := by
  induction text with
  | nil =>
    rcases stops with rfl | rfl <;> cases tail <;> rfl
  | cons c rest ih =>
    rw [printChoice, escape, flatMap_cons, append_assoc]
    change renderChoice (_ ++ (printChoice rest ++ stop :: tail)) = _
    split
    · rename_i special
      rw [cons_append, cons_append, nil_append, renderChoice, ih, if_pos special]
      rfl
    rename_i bare
    obtain ⟨comma, bar, back⟩ : c ≠ ',' ∧ c ≠ '|' ∧ c ≠ '\\' := by simpa using bare
    rw [singleton_append, renderChoice, ih, if_neg (by simp [comma, bar])]
    · rfl
    · simp [back]
    · simp

theorem braced_number (nested : List Char → List Char × List Char) (n : Nat) {mark : Char}
    (marks : isNameContinue mark = false) :
    renderBraced nested (decimal n ++ mark :: tail) = renderNamed nested (mark :: tail) := by
  have digits := decimal_digits n
  cases number : decimal n with
  | nil => exact absurd number (decimal_nonempty n)
  | cons first rest =>
    rw [number] at digits
    have named : ∀ c ∈ rest, isNameContinue c = true := by
      intro c inside
      simp [isNameContinue, Char.isAlphanum, digits c (mem_cons_of_mem _ inside)]
    rw [cons_append, renderBraced, if_pos (by simp [digits first mem_cons_self]),
      dropWhile_append_of_pos named, dropWhile_cons_of_neg (by simp [marks])]

/-- One turn of the loop over a construct with a number. -/
theorem construct_turn {fuel n : Nat} {nested : Bool} {mark : Char} {out behind : List Char}
    (marks : isNameContinue mark = false)
    (named : renderNamed (renderUntilBrace fuel true) (mark :: tail) = some (out, behind)) :
    renderUntilBrace (fuel + 1) nested ('$' :: '{' :: (decimal n ++ mark :: tail)) =
      push out (renderUntilBrace fuel nested behind) := by
  rw [renderUntilBrace] <;> simp [renderDollar, braced_number _ n marks, named]

theorem text_turn (c : Char) (fuel : Nat) (nested : Bool) (more : List Char) :
    renderUntilBrace (fuel + 1) nested (escape ['$', '}', '\\'] [c] ++ more) =
      push [c] (renderUntilBrace fuel nested more) := by
  rw [escape, flatMap_cons, flatMap_nil, append_nil]
  split
  · rename_i special
    rw [cons_append, cons_append, nil_append, renderUntilBrace, if_pos special]
  · rename_i bare
    obtain ⟨dollar, brace, back⟩ : c ≠ '$' ∧ c ≠ '}' ∧ c ≠ '\\' := by simpa using bare
    rw [singleton_append, renderUntilBrace, if_neg (by simp [brace]), if_neg dollar] <;> simp [back]

theorem nested_stops (fuel : Nat) : renderUntilBrace fuel true ('}' :: tail) = ([], '}' :: tail) := by
  cases fuel <;> rfl

theorem choice_named (nested : List Char → List Char × List Char) (first : List Char)
    {others : List (List Char)} (braceless : ∀ other ∈ others, '}' ∉ other) :
    renderNamed nested ('|' :: (printChoice first ++
      (others.flatMap (fun other => ',' :: printChoice other) ++ '|' :: '}' :: tail))) =
      some (first, tail) := by
  have skipped := @skip_others tail others braceless
  cases others with
  | nil => rw [renderNamed, flatMap_nil, nil_append, first_choice (.inr rfl)]; rfl
  | cons other rest =>
    rw [flatMap_cons, cons_append, cons_append] at skipped ⊢
    rw [renderNamed, first_choice (.inl rfl), skipped]

/-- A printed tree renders to its plain text before what stands behind it, with fuel for every
character. -/
theorem print_rendered (snippet : Snippet) (braceless : snippet.Braceless) (fuel : Nat)
    (nested : Bool) (tail : List Char) (enough : snippet.print.length ≤ fuel) :
    ∃ left, fuel ≤ left + snippet.print.length ∧ renderUntilBrace fuel nested (snippet.print ++ tail) =
        push snippet.plain (renderUntilBrace left nested tail) := by
  induction snippet generalizing fuel nested tail with
  | done => exact ⟨fuel, Nat.le_refl _, rfl⟩
  | text c rest ih =>
    have positive : 0 < (escape ['$', '}', '\\'] [c]).length := by simp [escape]; split <;> simp
    rw [Snippet.print, length_append] at enough ⊢
    cases fuel with
    | zero => omega
    | succ fuel =>
      obtain ⟨left, bound, rendered⟩ := ih braceless fuel nested tail (by omega)
      refine ⟨left, by omega, ?_⟩
      rw [append_assoc, text_turn, rendered, push_push]
      rfl
  | tabStop n rest ih =>
    simp only [Snippet.print, cons_append, append_assoc, length_cons, length_append] at enough ⊢
    cases fuel with
    | zero => omega
    | succ fuel =>
      obtain ⟨left, bound, rendered⟩ := ih braceless fuel nested tail (by omega)
      refine ⟨left, by omega, ?_⟩
      rw [construct_turn (by decide) rfl, rendered, push_push]
      rfl
  | placeholder n default rest inside ih =>
    simp only [Snippet.print, cons_append, append_assoc, length_cons, length_append] at enough ⊢
    cases fuel with
    | zero => omega
    | succ fuel =>
      obtain ⟨inner, -, within⟩ :=
        inside braceless.1 fuel true ('}' :: (rest.print ++ tail)) (by omega)
      have named : renderNamed (renderUntilBrace fuel true)
          (':' :: (default.print ++ '}' :: (rest.print ++ tail))) =
            some (default.plain, rest.print ++ tail) := by
        rw [renderNamed, within, nested_stops]
        simp [push]
      obtain ⟨left, bound, rendered⟩ := ih braceless.2 fuel nested tail (by omega)
      refine ⟨left, by omega, ?_⟩
      rw [construct_turn (by decide) named, rendered, push_push]
      rfl
  | choice n first others rest ih =>
    simp only [Snippet.print, cons_append, append_assoc, length_cons, length_append] at enough ⊢
    cases fuel with
    | zero => omega
    | succ fuel =>
      obtain ⟨left, bound, rendered⟩ := ih braceless.2 fuel nested tail (by omega)
      refine ⟨left, by omega, ?_⟩
      rw [construct_turn (by decide) (choice_named _ first braceless.1), rendered, push_push]
      rfl

/-- A printed tree renders to its plain text if no later choice contains a closing brace. -/
theorem fallback_plain (snippet : Snippet) (braceless : snippet.Braceless) :
    renderSnippetPlaintext snippet.print = snippet.plain := by
  obtain ⟨left, -, rendered⟩ :=
    print_rendered snippet braceless snippet.print.length false [] (Nat.le_refl _)
  rw [append_nil] at rendered
  rw [renderSnippetPlaintext, rendered]
  cases left <;> exact append_nil _

def nestedDefault : Snippet :=
  .placeholder 1 (.text '$' (.choice 2 ['}', ','] [['|'], ['\\', 'd']] .done)) (.tabStop 0 .done)

theorem nested_default_plain : renderSnippetPlaintext nestedDefault.print = ['$', '}', ','] :=
  fallback_plain nestedDefault ⟨⟨by simp, trivial⟩, trivial⟩

/-- The snippet `${1|a,b}c|}`. -/
def bracedChoice : Snippet := .choice 1 ['a'] [['b', '}', 'c']] .done

theorem braced_choice_leaks : renderSnippetPlaintext bracedChoice.print ≠ bracedChoice.plain := by
  decide

end PerlLsp.SnippetFallback
