import PerlLsp.Text
import Mathlib.Data.List.Infix

/-! Arguments written for a shell (`format_command_args` of command_args/mod.rs, as it is
built anywhere but on Windows), and how a POSIX shell reads the line they are joined into. -/
namespace PerlLsp.CommandArgs
open Text List

/-- `arg.replace('"', "\\\"")`. -/
def replaceQuotes (arg : List Char) : List Char :=
  arg.flatMap fun scalar => if scalar = '"' then ['\\', '"'] else [scalar]

def formatCommandArg (arg : List Char) : List Char :=
  if arg.isEmpty || arg.any isWhitespace then
    if arg.contains '\'' then '"' :: (replaceQuotes arg ++ ['"']) else '\'' :: (arg ++ ['\''])
  else arg

def formatCommandArgs (args : List (List Char)) : List (List Char) := args.map formatCommandArg

def commandLine (args : List (List Char)) : List Char :=
  [' '].intercalate (formatCommandArgs args)

inductive Quoting where
  | bare
  | single
  | double

inductive Mode where
  | between
  | inside (quoting : Quoting)
  | bareEscape (started : Bool)
  | doubleEscape

/-- Operators, expansions and patterns: the shell acts on them, or looks around itself. -/
def isActive (scalar : Char) : Bool :=
  ['|', '&', ';', '<', '>', '(', ')', '$', '\x60', '*', '?', '[', '\n'].contains scalar

@[simp] def bareTurn (started : Bool) (scalar : Char) : Option (List (Option Char) × Mode) :=
  if scalar = '\\' then some ([], .bareEscape started)
  else if scalar = '\'' then some ([], .inside .single)
  else if scalar = '"' then some ([], .inside .double)
  else if isActive scalar then none
  else some ([some scalar], .inside .bare)

/-- What one character gives: characters of the word, and `none` where the word ends. -/
@[simp] def turn : Mode → Char → Option (List (Option Char) × Mode)
  | .between, scalar =>
    if scalar = ' ' ∨ scalar = '\t' then some ([], .between)
    else if scalar = '#' ∨ scalar = '~' then none
    else bareTurn false scalar
  | .inside .bare, scalar =>
    if scalar = ' ' ∨ scalar = '\t' then some ([none], .between) else bareTurn true scalar
  | .inside .single, scalar =>
    if scalar = '\'' then some ([], .inside .bare) else some ([some scalar], .inside .single)
  | .inside .double, scalar =>
    if scalar = '"' then some ([], .inside .bare)
    else if scalar = '\\' then some ([], .doubleEscape)
    else if scalar = '$' ∨ scalar = '\x60' then none
    else some ([some scalar], .inside .double)
  | .bareEscape started, scalar =>
    if scalar = '\n' then some ([], if started then .inside .bare else .between)
    else some ([some scalar], .inside .bare)
  | .doubleEscape, scalar =>
    if scalar = '\n' then some ([], .inside .double)
    else if scalar = '"' ∨ scalar = '\\' ∨ scalar = '$' ∨ scalar = '\x60' then
      some ([some scalar], .inside .double)
    else some ([some '\\', some scalar], .inside .double)

@[simp] def turns : Mode → List Char → Option (List (Option Char) × Mode)
  | mode, [] => some ([], mode)
  | mode, scalar :: rest =>
    match turn mode scalar with
    | none => none
    | some (taken, next) =>
      match turns next rest with
      | none => none
      | some (later, last) => some (taken ++ later, last)

def reading (mode : Mode) (text : List Char) : Option (List (Option Char)) :=
  match turns mode text with
  | some (taken, .between) => some taken
  | some (taken, .inside .bare) => some (taken ++ [none])
  | _ => none

def fields (words : List (List Char)) : List (Option Char) :=
  words.flatMap fun word => word.map some ++ [none]

/-- The shell takes the text for these words, and does nothing else with it. -/
def ReadsAs (text : List Char) (words : List (List Char)) : Prop :=
  reading .between text = some (fields words)

namespace Quoting

def of (arg : List Char) : Quoting :=
  if arg.isEmpty || arg.any isWhitespace then if arg.contains '\'' then .double else .single
  else .bare

@[simp] def mark : Quoting → List Char
  | .bare => []
  | .single => ['\'']
  | .double => ['"']

@[simp] def piece : Quoting → Char → List Char
  | .double, scalar => if scalar = '"' then ['\\', '"'] else [scalar]
  | _, scalar => [scalar]

/-- Whether a character stands for itself before the next one. -/
@[simp] def keeps (quoting : Quoting) (scalar : Char) (next : Option Char) : Bool :=
  match quoting with
  | .bare => !isActive scalar && scalar != '\\' && scalar != '\'' && scalar != '"'
  | .single => true
  | .double => scalar != '$' && scalar != '\x60' &&
    (scalar != '\\' || next.any fun next => next != '"' && next != '\\' && next != '\n')

@[simp] def keepsAll (quoting : Quoting) : List Char → Bool
  | [] => true
  | scalar :: rest => quoting.keeps scalar rest.head? && quoting.keepsAll rest

@[simp] def Suits : Quoting → List Char → Prop
  | .bare, arg => ∀ scalar ∈ arg, isWhitespace scalar = false
  | .single, arg => '\'' ∉ arg
  | .double, _ => True

end Quoting

def isFaithful (arg : List Char) : Bool :=
  (Quoting.of arg).keepsAll arg &&
    (arg.any isWhitespace || arg.head? != some '#' && arg.head? != some '~')

section Turns
variable {quoting : Quoting} {mode next : Mode} {scalar : Char} {rest : List Char}
  {taken later wanted : List (Option Char)}

theorem reading_append (text : List Char) {out : List (Option Char)} :
    reading mode (text ++ rest) = some out ↔ ∃ taken next later,
      turns mode text = some (taken, next) ∧ reading next rest = some later ∧ out = taken ++ later := by
  induction text generalizing mode out with
  | nil => simp
  | cons scalar text ih =>
    have one (rest : List Char) : reading mode (scalar :: rest) = some out ↔
        ∃ taken next later, turn mode scalar = some (taken, next) ∧
          reading next rest = some later ∧ out = taken ++ later := by
      grind [reading, turns]
    rw [cons_append, one]
    simp only [ih]
    rcases first : turn mode scalar with _ | ⟨taken, next⟩
    · simp [first, -turn]
    · rcases behind : turns next text with _ | ⟨later, last⟩ <;>
        simp [first, behind, -turn]

theorem piece_turns (one : turns mode (quoting.piece scalar) = some (taken, next)) :
    turn mode scalar = some (taken, next) ∧ (quoting = .double → scalar ≠ '"') ∨
      turns mode ['\\', '"'] = some (taken, next) ∧ quoting = .double ∧ scalar = '"' := by
  cases quoting <;> grind [Quoting.piece, turns]

/-- What is still wanted behind a character is wanted of what is read behind it. -/
theorem wanted_behind (one : turns mode (quoting.piece scalar) = some (taken, next))
    (within : some scalar :: wanted <:+ taken ++ later) : wanted <:+ later := by
  have short : taken = [] ∨ (∃ first, taken = [first]) ∨
      taken = [some '\\', some scalar] ∧ scalar ≠ '\\' := by
    rcases piece_turns one with ⟨step, _⟩ | ⟨steps, _, rfl⟩
    · rcases mode with _ | ⟨_ | _ | _⟩ | _ | _ <;> grind [turn, bareTurn]
    · rcases mode with _ | ⟨_ | _ | _⟩ | _ | _ <;> simp at steps <;> simp [← steps.1]
  have behind {first : Option Char} {out : List (Option Char)}
      (within : some scalar :: wanted <:+ first :: out) : wanted <:+ out := by
    rcases suffix_cons_iff.mp within with same | within
    · cases same
      exact suffix_rfl
    · exact (suffix_cons _ _).trans within
  rcases short with rfl | ⟨first, rfl⟩ | ⟨rfl, other⟩
  · exact (suffix_cons _ _).trans within
  · exact behind within
  · rcases suffix_cons_iff.mp within with same | within
    · cases same
      contradiction
    · exact behind within

theorem first_behind {first : Option Char} (apart : first ∉ taken)
    (within : first :: wanted <:+ taken ++ later) : first :: wanted <:+ later := by
  induction taken with
  | nil => exact within
  | cons other taken ih =>
    obtain ⟨different, apart⟩ := not_or.mp (mt mem_cons.mpr apart)
    rcases suffix_cons_iff.mp within with same | within
    · cases same
      contradiction
    · exact ih apart within

theorem mark_goes_on (one : turns mode quoting.mark = some (taken, next)) : none ∉ taken := by
  cases quoting <;> rcases mode with _ | ⟨_ | _ | _⟩ | _ | _ <;>
    simp_all <;> simp [← one.1]

end Turns

theorem formatted_eq (arg : List Char) : formatCommandArg arg = (Quoting.of arg).mark ++
    (arg.flatMap (Quoting.of arg).piece ++ (Quoting.of arg).mark) ∧ (Quoting.of arg).Suits arg := by
  have whole : arg = arg.flatMap fun scalar => [scalar] := (flatMap_singleton' arg).symm
  unfold formatCommandArg Quoting.of
  split_ifs with quoted inside
  · exact ⟨rfl, trivial⟩
  · exact ⟨congrArg (fun body => '\'' :: (body ++ ['\''])) whole, by simpa using inside⟩
  · exact ⟨whole.trans (append_nil _).symm, by simp_all⟩

/-- The only way in which the rest of an argument can still be taken for what it is. -/
@[simp] def Aligned (quoting : Quoting) (rest : List Char) (wanted : List (Option Char)) :
    Mode → List (Option Char) → Prop
  | .between, out => quoting = .bare ∧ out = wanted ∧ quoting.keepsAll rest ∧
    rest.head? ≠ some '#' ∧ rest.head? ≠ some '~'
  | .inside home, out => home = quoting ∧ out = wanted ∧ quoting.keepsAll rest
  | .bareEscape _, out => if quoting.mark = [] then out = wanted
    else rest = [] ∧ out = quoting.mark.map some ++ wanted
  | .doubleEscape, out => quoting = .double ∧ (out = wanted ∨
    out = some '\\' :: wanted ∧ quoting.keepsAll ('\\' :: rest))

section Behind
variable {after : List Char} {expected : List (Option Char)}

def Closed (after : List Char) (expected : List (Option Char)) : Prop :=
  ∀ mode out, reading mode after = some out → none :: expected <:+ out →
    mode = .inside .bare ∧ out = none :: expected

theorem body_closed (closed : Closed after expected) (quoting : Quoting) (rest : List Char)
    (suits : quoting.Suits rest) : ∀ mode out,
      reading mode (rest.flatMap quoting.piece ++ (quoting.mark ++ after)) = some out →
      rest.map some ++ none :: expected <:+ out →
      Aligned quoting rest (rest.map some ++ none :: expected) mode out := by
  induction rest with
  | nil =>
    intro mode out read within
    rw [flatMap_nil, nil_append] at read
    obtain ⟨taken, next, later, one, later_read, rfl⟩ := (reading_append _).mp read
    obtain ⟨rfl, rfl⟩ := closed next later later_read (first_behind (mark_goes_on one) within)
    clear read later_read closed suits within
    cases quoting <;> rcases mode with _ | ⟨_ | _ | _⟩ | _ | _ <;> simp_all
  | cons scalar rest ih =>
    intro mode out read within
    rw [flatMap_cons, append_assoc] at read
    obtain ⟨taken, next, later, one, later_read, rfl⟩ := (reading_append _).mp read
    have tail := ih (by cases quoting <;> simp_all) next later later_read (wanted_behind one within)
    have whole := within.eq_of_length
    have long := within.length_le
    simp only [length_append, length_map, length_cons] at long whole
    simp only [map_cons, cons_append] at whole ⊢
    clear read within ih closed later_read
    rcases piece_turns one with ⟨step, apart⟩ | ⟨steps, rfl, rfl⟩
    · have blank : quoting = .bare → scalar ≠ ' ' ∧ scalar ≠ '\t' ∧ scalar ≠ '\n' := by
        rintro rfl
        have solid := suits scalar (.head _)
        refine ⟨?_, ?_, ?_⟩ <;> (rintro rfl; cases solid)
      clear one
      cases quoting
      all_goals
        simp only [Quoting.Suits] at suits
        rcases mode with _ | ⟨_ | _ | _⟩ | _ | _ <;> simp only [turn, bareTurn] at step <;>
          split_ifs at step <;> cases step <;> simp_all
      all_goals grind
    · clear one
      rcases mode with _ | ⟨_ | _ | _⟩ | _ | _ <;> simp at steps <;> obtain ⟨rfl, rfl⟩ := steps <;>
        simp_all
      all_goals omega

theorem aligned_starts {quoting : Quoting} {rest : List Char} {wanted : List (Option Char)}
    {mode : Mode} {out : List (Option Char)} (aligned : Aligned quoting rest wanted mode out) :
    ¬ none :: wanted <:+ out := by
  intro longer
  have whole := longer.eq_of_length
  have long := longer.length_le
  cases mode with
  | bareEscape started => cases quoting <;> simp_all <;> omega
  | _ => grind [Aligned]

theorem arg_closed (closed : Closed after expected) (arg : List Char) {mode : Mode}
    {out : List (Option Char)} (read : reading mode (formatCommandArg arg ++ after) = some out)
    (within : arg.map some ++ none :: expected <:+ out) :
    ¬ none :: (arg.map some ++ none :: expected) <:+ out ∧ (mode = .between → isFaithful arg) := by
  obtain ⟨same, suits⟩ := formatted_eq arg
  rw [same, append_assoc, append_assoc] at read
  obtain ⟨taken, next, later, one, later_read, rfl⟩ := (reading_append _).mp read
  have aligned := body_closed closed (Quoting.of arg) arg suits next later later_read
  refine ⟨fun longer => ?_, fun start => ?_⟩
  · have past := first_behind (mark_goes_on one) longer
    exact aligned_starts (aligned ((suffix_cons _ _).trans past)) past
  · subst start
    have quoted : Quoting.of arg ≠ .bare → arg = [] ∨ arg.any isWhitespace := by
      unfold Quoting.of
      split_ifs <;> simp_all
    unfold isFaithful
    generalize Quoting.of arg = quoting at one aligned quoted
    cases quoting <;> simp at one <;> obtain ⟨rfl, rfl⟩ := one <;> simp_all <;> grind

end Behind

def behind : List (List Char) → List Char
  | [] => []
  | arg :: rest => ' ' :: (formatCommandArg arg ++ behind rest)

theorem commandLine_cons (arg : List Char) (rest : List (List Char)) :
    commandLine (arg :: rest) = formatCommandArg arg ++ behind rest := by
  induction rest generalizing arg with
  | nil => simp [commandLine, formatCommandArgs, behind]
  | cons next rest ih =>
    have later := ih next
    unfold commandLine formatCommandArgs at later ⊢
    rw [map_cons, map_cons, intercalate_cons_cons, ← map_cons, later]
    simp [behind]

theorem fields_cons (arg : List Char) (rest : List (List Char)) :
    fields (arg :: rest) = arg.map some ++ none :: fields rest := by simp [fields]

theorem behind_closed (args : List (List Char)) : Closed (behind args) (fields args) := by
  induction args with
  | nil =>
    intro mode out read within
    rcases mode with _ | ⟨_ | _ | _⟩ | _ | _ <;> simp_all [behind, reading, fields]
  | cons arg rest ih =>
    intro mode out read within
    obtain ⟨taken, next, later, one, later_read, rfl⟩ := (reading_append [' ']).mp read
    rw [fields_cons] at within ⊢
    have ended := arg_closed ih arg later_read
    by_cases bare : mode = .inside .bare
    · subst bare
      cases one
      rcases suffix_cons_iff.mp within with whole | past
      · exact ⟨rfl, whole.symm⟩
      · exact absurd past (ended ((suffix_cons _ _).trans past)).1
    · have words : none ∉ taken := by
        rcases mode with _ | ⟨_ | _ | _⟩ | _ | _ <;> grind [turns, turn, bareTurn]
      have past := first_behind words within
      exact absurd past (ended ((suffix_cons _ _).trans past)).1

theorem body_turns (quoting : Quoting) (rest : List Char) (suits : quoting.Suits rest)
    (kept : quoting.keepsAll rest) : turns (.inside quoting)
      (rest.flatMap quoting.piece ++ quoting.mark) = some (rest.map some, .inside .bare) := by
  induction rest with
  | nil => cases quoting <;> simp
  | cons scalar rest ih =>
    have later := ih (by cases quoting <;> simp_all) (Bool.and_eq_true_iff.mp kept).2
    have keeps := (Bool.and_eq_true_iff.mp kept).1
    rw [flatMap_cons, append_assoc]
    clear kept ih
    cases quoting with
    | bare =>
      have solid := suits scalar (.head _)
      have blank : scalar ≠ ' ' ∧ scalar ≠ '\t' := by constructor <;> (rintro rfl; cases solid)
      simp_all
    | single =>
      have apart : scalar ≠ '\'' := fun same => suits (same ▸ .head _)
      simp_all
    | double =>
      by_cases slash : scalar = '\\'
      · subst slash
        cases rest with
        | nil => simp at keeps
        | cons next rest =>
          have ordinary : next ≠ '"' ∧ next ≠ '\\' ∧ next ≠ '\n' := by
            simpa [and_assoc] using keeps
          rw [flatMap_cons, append_assoc] at later ⊢
          generalize rest.flatMap Quoting.double.piece ++ Quoting.double.mark = text at later ⊢
          simp_all
          grind
      · by_cases quote : scalar = '"' <;> simp_all

theorem arg_turns (arg : List Char) (faithful : isFaithful arg) :
    turns .between (formatCommandArg arg) = some (arg.map some, .inside .bare) := by
  obtain ⟨same, suits⟩ := formatted_eq arg
  obtain ⟨kept, head⟩ := Bool.and_eq_true_iff.mp faithful
  have body := body_turns (Quoting.of arg) arg suits kept
  have present : Quoting.of arg = .bare → arg ≠ [] ∧ arg.any isWhitespace = false := by
    unfold Quoting.of
    split_ifs <;> simp_all
  rw [same]
  clear faithful same
  generalize Quoting.of arg = quoting at body suits kept present
  cases quoting with
  | bare =>
    obtain ⟨present, solid⟩ := present rfl
    cases arg with
    | nil => contradiction
    | cons scalar rest =>
      have solid := suits scalar (.head _)
      have blank : scalar ≠ ' ' ∧ scalar ≠ '\t' := by constructor <;> (rintro rfl; cases solid)
      simp_all
  | single => simp_all
  | double => simp_all

theorem between_iff (arg : List Char) (rest : List (List Char)) :
    ReadsAs (commandLine (arg :: rest)) (arg :: rest) ↔
      isFaithful arg ∧ reading (.inside .bare) (behind rest) = some (none :: fields rest) := by
  unfold ReadsAs
  rw [commandLine_cons, fields_cons]
  constructor
  · intro reads
    have faithful := (arg_closed (behind_closed rest) arg reads suffix_rfl).2 rfl
    obtain ⟨taken, next, later, one, read, whole⟩ := (reading_append _).mp reads
    cases (arg_turns arg faithful).symm.trans one
    exact ⟨faithful, read.trans (congrArg some (append_cancel_left whole).symm)⟩
  · rintro ⟨faithful, later⟩
    exact (reading_append _).mpr ⟨_, _, _, arg_turns arg faithful, later, rfl⟩

theorem behind_iff (args : List (List Char)) : reading (.inside .bare) (behind args) =
    some (none :: fields args) ↔ ∀ arg ∈ args, isFaithful arg := by
  induction args with
  | nil => simp [behind, reading, fields]
  | cons arg rest ih =>
    have one := between_iff arg rest
    unfold ReadsAs at one
    rw [forall_mem_cons, ← ih, ← one, commandLine_cons, behind]
    exact (reading_append [' ']).trans (by simp)

end PerlLsp.CommandArgs
