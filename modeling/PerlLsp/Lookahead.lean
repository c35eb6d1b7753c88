import Mathlib.Data.List.Basic

/-! Lookahead in front of a feed. A reader pulls tokens from a feed ahead of time, holds them, and
hands them out one by one; a final token stays held. A window that looks ahead is one that never
does, with some pulls made early; dropping what the first holds is, for the second, to skip as many
tokens. -/
namespace PerlLsp.Lookahead
open List

structure Tap (Feed Token Error : Type) where
  pull : Feed → Except Error Token × Feed
  final : Token → Bool
  settled : ∀ feed error after, pull feed = (.error error, after) →
    pull after = (.error error, after)

structure Window (Feed Token : Type) where
  feed : Feed
  held : List Token

variable {Feed Token Error : Type} (tap : Tap Feed Token Error)

def fill (window : Window Feed Token) : Option Error × Window Feed Token :=
  match tap.pull window.feed with
  | (.error error, after) => (some error, { window with feed := after })
  | (.ok token, after) => (none, ⟨after, window.held ++ [token]⟩)

def next (window : Window Feed Token) : Except Error Token × Window Feed Token :=
  match window.held with
  | token :: rest => (.ok token, if tap.final token then window else { window with held := rest })
  | [] =>
    match tap.pull window.feed with
    | (.error error, after) => (.error error, ⟨after, []⟩)
    | (.ok token, after) => (.ok token, ⟨after, if tap.final token then [token] else []⟩)

variable (feed after : Feed) (token : Token)

theorem next_held (rest : List Token) : next tap ⟨feed, token :: rest⟩ =
      (.ok token, ⟨feed, if tap.final token then token :: rest else rest⟩) := by
  cases final : tap.final token <;> simp [next, final]

theorem next_failed (error : Error) (failed : tap.pull feed = (.error error, after)) :
    next tap ⟨feed, []⟩ = (.error error, ⟨after, []⟩) := by
  simp [next, failed]

theorem next_pulled (pulled : tap.pull feed = (.ok token, after)) :
    next tap ⟨feed, []⟩ = (.ok token, ⟨after, if tap.final token then [token] else []⟩) := by
  simp [next, pulled]

def clear (window : Window Feed Token) : Window Feed Token := { window with held := [] }

def skip : Nat → Window Feed Token → Window Feed Token
  | 0, window => window
  | count + 1, window =>
    match window.held with
    | _ :: rest => skip count { window with held := rest }
    | [] => skip count ⟨(tap.pull window.feed).2, []⟩

inductive Pulls : Feed → List Token → Feed → Prop where
  | nil (feed : Feed) : Pulls feed [] feed
  | cons (feed middle last : Feed) (token : Token) (rest : List Token)
      (pulled : tap.pull feed = (.ok token, middle)) (onward : Pulls middle rest last) :
      Pulls feed (token :: rest) last

theorem pulls_snoc (middle last : Feed) (tokens : List Token) (token : Token)
    (pulls : Pulls tap feed tokens middle) (pulled : tap.pull middle = (.ok token, last)) :
    Pulls tap feed (tokens ++ [token]) last := by
  induction pulls with
  | nil feed => exact .cons feed last last token [] pulled (.nil last)
  | cons feed next middle first rest head onward ih =>
    exact .cons feed next last first (rest ++ [token]) head (ih pulled)

def StandsAt (middle feed : Feed) : Prop :=
  feed = middle ∨ ∃ error, tap.pull middle = (.error error, feed)

structure Ahead (behind ahead : Window Feed Token) : Prop where
  early : ∃ pulled middle, Pulls tap behind.feed pulled middle ∧
    ahead.held = behind.held ++ pulled ∧ StandsAt tap middle ahead.feed
  resting : behind.held = [] ∨ ∃ token, behind.held = [token] ∧ tap.final token = true

theorem ahead_self : Ahead tap ⟨feed, []⟩ (⟨feed, []⟩ : Window Feed Token) :=
  ⟨⟨[], feed, .nil feed, rfl, .inl rfl⟩, .inl rfl⟩

theorem fill_ahead (behind ahead : Window Feed Token) (related : Ahead tap behind ahead) :
    Ahead tap behind (fill tap ahead).2 := by
  obtain ⟨⟨pulled, middle, pulls, held, stands⟩, resting⟩ := related
  rw [fill]
  cases result : tap.pull ahead.feed with
  | mk outcome after =>
    cases outcome with
    | error error =>
      refine ⟨⟨pulled, middle, pulls, held, ?_⟩, resting⟩
      obtain same | ⟨earlier, failed⟩ := stands
      · exact .inr ⟨error, same ▸ result⟩
      · have again := tap.settled middle earlier ahead.feed failed
        rw [result, Prod.mk.injEq] at again
        exact .inr ⟨earlier, again.2 ▸ failed⟩
    | ok token =>
      obtain same | ⟨earlier, failed⟩ := stands
      · refine ⟨⟨pulled ++ [token], after, ?_, ?_, .inl rfl⟩, resting⟩
        · exact pulls_snoc tap behind.feed middle after pulled token pulls (same ▸ result)
        · simp [held]
      · have again := tap.settled middle earlier ahead.feed failed
        rw [result] at again
        cases again

theorem next_ahead (behind ahead : Window Feed Token) (related : Ahead tap behind ahead) :
    (next tap ahead).1 = (next tap behind).1 ∧ Ahead tap (next tap behind).2 (next tap ahead).2 := by
  obtain ⟨behindFeed, behindHeld⟩ := behind
  obtain ⟨feed, aheadHeld⟩ := ahead
  obtain ⟨⟨pulled, middle, pulls, held, stands⟩, resting⟩ := related
  dsimp only at pulls held stands resting
  subst held
  obtain rfl | ⟨last, rfl, final⟩ := resting
  · cases pulls with
    | nil =>
      obtain rfl | ⟨error, failed⟩ := stands
      · refine ⟨rfl, ?_⟩
        simp only [next, append_nil]
        cases result : tap.pull feed with
        | mk outcome after =>
          cases outcome with
          | error error => exact ahead_self tap after
          | ok token =>
            refine ⟨⟨[], after, .nil after, (append_nil _).symm, .inl rfl⟩, ?_⟩
            cases final : tap.final token with
            | true => exact .inr ⟨token, by simp [final], final⟩
            | false => exact .inl (by simp [final])
      · have again := tap.settled _ error feed failed
        simp only [next, append_nil, failed, again]
        exact ⟨trivial, ahead_self tap feed⟩
    | cons _ onwardFeed _ token rest head onward =>
      simp only [next, head, nil_append]
      refine ⟨trivial, ⟨rest, middle, onward, ?_, ?_⟩, ?_⟩
      · cases tap.final token <;> rfl
      · cases tap.final token <;> exact stands
      · cases final : tap.final token with
        | true => exact .inr ⟨token, by simp, final⟩
        | false => exact .inl (by simp)
  · have kept : next tap ⟨feed, [last] ++ pulled⟩ = (.ok last, ⟨feed, [last] ++ pulled⟩) := by
      simp [next, final]
    have keptBehind : next tap ⟨behindFeed, [last]⟩ = (.ok last, ⟨behindFeed, [last]⟩) := by
      simp [next, final]
    rw [kept, keptBehind]
    exact ⟨rfl, ⟨⟨pulled, middle, pulls, rfl, stands⟩, .inr ⟨last, rfl, final⟩⟩⟩

theorem skip_held (window : Window Feed Token) (count : Nat) :
    skip tap (window.held.length + count) window = skip tap count ⟨window.feed, []⟩ := by
  obtain ⟨feed, held⟩ := window
  induction held with
  | nil => simp
  | cons token rest ih =>
    rw [length_cons, Nat.add_right_comm]
    exact ih

theorem skip_pulls (last : Feed) (tokens : List Token) (pulls : Pulls tap feed tokens last) :
    skip tap tokens.length ⟨feed, []⟩ = ⟨last, []⟩ := by
  induction pulls with
  | nil feed => rfl
  | cons feed middle last token rest head onward ih =>
    rw [length_cons, skip]
    simp only [head]
    exact ih

theorem clear_ahead (behind ahead : Window Feed Token) (related : Ahead tap behind ahead) :
    Ahead tap (skip tap ahead.held.length behind) (clear ahead) := by
  obtain ⟨⟨pulled, middle, pulls, held, stands⟩, -⟩ := related
  have passed : skip tap ahead.held.length behind = ⟨middle, []⟩ := by
    rw [held, length_append, skip_held]
    exact skip_pulls tap behind.feed middle pulled pulls
  rw [passed]
  exact ⟨⟨[], middle, .nil middle, rfl, stands⟩, .inl rfl⟩

/-- Reading without lookahead. -/
inductive Plain where
  | next
  | skip (count : Nat)
  deriving DecidableEq

def plainAnswers : Window Feed Token → List Plain → List (Except Error Token)
  | _, [] => []
  | window, .next :: rest => (next tap window).1 :: plainAnswers (next tap window).2 rest
  | window, .skip count :: rest => plainAnswers (skip tap count window) rest

theorem resting_sequence (last : Token) (final : tap.final last = true) (count : Nat) :
    plainAnswers tap ⟨feed, [last]⟩ (List.replicate count .next) =
      (List.range count).map fun _ => .ok last := by
  induction count with
  | zero => rfl
  | succ count ih =>
    rw [replicate_succ, plainAnswers, range_succ_eq_map, map_cons, map_map]
    simp only [next, final, if_true, ih]
    rfl

/-- Reading on from a feed of these tokens: each once and in order up to the first final one, and
that one from then on. -/
theorem next_sequence (tokens : List Token) (last : Token) (pulls : Pulls tap feed tokens after)
    (ends : tokens.find? tap.final = some last) (count : Nat) :
    plainAnswers tap ⟨feed, []⟩ (List.replicate count .next) = (List.range count).map fun index =>
        .ok ((tokens.takeWhile fun token => !tap.final token)[index]?.getD last) := by
  induction count generalizing feed tokens with
  | zero => rfl
  | succ count ih =>
    cases pulls with
    | nil => cases ends
    | cons _ middle _ token rest head onward =>
      rw [replicate_succ, plainAnswers, range_succ_eq_map, map_cons, map_map]
      simp only [next, head]
      cases final : tap.final token with
      | false =>
        rw [find?_cons, final] at ends
        simp only [Bool.false_eq_true, if_false, ih middle rest onward ends]
        simp [final, Function.comp_def]
      | true =>
        rw [find?_cons, final] at ends
        cases ends
        simp [resting_sequence tap middle last final, final, Function.comp_def]

end PerlLsp.Lookahead
