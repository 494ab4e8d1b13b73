import Libfcd.Interaction.Program

namespace Libfcd.Interaction

variable {ι : Type} {ρ : ι → Type} {α β σ : Type}

/-- Which events begin and which end a stretch that nothing may come between. -/
structure Atomic (ι : Type) (ρ : ι → Type) where
  enters : Event ι ρ → Bool
  leaves : Event ι ρ → Bool

/-- The events of one call outside of a stretch, or of a stretch from end to end. -/
def Atomic.Whole (c : Atomic ι ρ) (es : List (Event ι ρ)) : Prop :=
  (∃ e, es = [e] ∧ c.enters e = false) ∨
  ∃ e inside e', es = e :: inside ++ [e'] ∧ c.enters e = true ∧
    (∀ x ∈ inside, c.leaves x = false) ∧ c.leaves e' = true

/-- A program and the surroundings after a part of it has run, with the events. -/
structure Part (ι : Type) (ρ : ι → Type) (α σ : Type) where
  rest : Program ι ρ α
  state : σ
  events : List (Event ι ρ)

def Part.after (e : Event ι ρ) (x : Part ι ρ α σ) : Part ι ρ α σ :=
  { x with events := e :: x.events }

namespace Program

/-- Run on to the event that ends a stretch. -/
def finish (h : Handler ι ρ σ) (c : Atomic ι ρ) : Program ι ρ α → σ → Part ι ρ α σ
  | .call i next, s =>
    if c.leaves ⟨i, (h i s).1⟩ then ⟨next (h i s).1, (h i s).2, [⟨i, (h i s).1⟩]⟩
    else (finish h c (next (h i s).1) (h i s).2).after ⟨i, (h i s).1⟩
  | .done a, s => ⟨.done a, s, []⟩
  | .wrong, s => ⟨.wrong, s, []⟩

/-- One call, or a whole stretch if it begins one. -/
def turn (h : Handler ι ρ σ) (c : Atomic ι ρ) : Program ι ρ α → σ → Part ι ρ α σ
  | .call i next, s =>
    if c.enters ⟨i, (h i s).1⟩ then
      (finish h c (next (h i s).1) (h i s).2).after ⟨i, (h i s).1⟩
    else ⟨next (h i s).1, (h i s).2, [⟨i, (h i s).1⟩]⟩
  | .done a, s => ⟨.done a, s, []⟩
  | .wrong, s => ⟨.wrong, s, []⟩

/-- What a program that has ended returned. -/
def result : Program ι ρ α → Option α
  | .done a => some a
  | _ => none

variable {h : Handler ι ρ σ} {c : Atomic ι ρ}

/-- A program that ends with the end of a stretch leaves the rest to what follows. -/
theorem finish_bind {p : Program ι ρ α} {s t : σ} {a : α} {es : List (Event ι ρ)}
    {e : Event ι ρ} (hp : Runs h p s a t (es ++ [e])) (hes : ∀ x ∈ es, c.leaves x = false)
    (he : c.leaves e = true) (f : α → Program ι ρ β) :
    finish h c (p >>= f) s = ⟨f a, t, es ++ [e]⟩ := by
  induction p generalizing s es with
  | done b =>
    have := hp.events
    simp at this
  | wrong =>
    have := hp.run
    cases this
  | call i next ih =>
    have hevents := hp.events
    rw [events_call] at hevents
    cases es with
    | nil =>
      obtain ⟨rfl, hnext⟩ := List.cons.inj hevents
      have hrun : run h (next (h i s).1) (h i s).2 = some (a, t) := hp.run
      cases hn : next (h i s).1 with
      | done b =>
        rw [hn, run_done] at hrun
        obtain ⟨rfl, ht⟩ := Prod.mk.inj (Option.some.inj hrun)
        simp [finish, he, hn, ht]
      | call j next' => simp [hn] at hnext
      | wrong => simp [hn] at hrun
    | cons x es =>
      obtain ⟨rfl, hnext⟩ := List.cons.inj hevents
      have hstep : Runs h (next (h i s).1) (h i s).2 a t (es ++ [e]) := ⟨hp.run, hnext⟩
      have hrest := ih _ hstep (fun y hy => hes y (by simp [hy]))
      simp [finish, hes _ (List.mem_cons_self), hrest, Part.after]

/-- A turn is one call or one whole stretch. -/
theorem turn_bind {p : Program ι ρ α} {s t : σ} {a : α} {es : List (Event ι ρ)}
    (hp : Runs h p s a t es) (hes : c.Whole es) (f : α → Program ι ρ β) :
    turn h c (p >>= f) s = ⟨f a, t, es⟩ := by
  cases p with
  | done b =>
    obtain rfl := hp.events
    rcases hes with ⟨e, hnil, -⟩ | ⟨e, es, e', hnil, -⟩
    · cases hnil
    · cases hnil
  | wrong => cases hp.run
  | call i next =>
    rcases hes with ⟨e, rfl, henter⟩ | ⟨e, es, e', rfl, henter, hinside, hleave⟩
    · obtain ⟨rfl, hnext⟩ := List.cons.inj hp.events
      have hrun : run h (next (h i s).1) (h i s).2 = some (a, t) := hp.run
      cases hn : next (h i s).1 with
      | done b =>
        rw [hn, run_done] at hrun
        obtain ⟨rfl, ht⟩ := Prod.mk.inj (Option.some.inj hrun)
        simp [turn, henter, hn, ht]
      | call j next' => simp [hn] at hnext
      | wrong => simp [hn] at hrun
    · obtain ⟨rfl, hnext⟩ := List.cons.inj hp.events
      have hrest := finish_bind (p := next (h i s).1) (s := (h i s).2) ⟨hp.run, hnext⟩ hinside
        hleave f
      simp [turn, henter, hrest, Part.after]

end Program

/-- Two programs on the same surroundings. -/
structure Pair (ι : Type) (ρ : ι → Type) (α β σ : Type) where
  first : Program ι ρ α
  second : Program ι ρ β
  state : σ

/-- The turns of two programs in the order of a schedule: `true` for the first.
With what is left of them come the events of each turn. -/
def Pair.interleave (h : Handler ι ρ σ) (c : Atomic ι ρ) (x : Pair ι ρ α β σ) :
    List Bool → Pair ι ρ α β σ × List (Bool × List (Event ι ρ))
  | [] => (x, [])
  | true :: schedule =>
    let y := x.first.turn h c x.state
    let z := interleave h c ⟨y.rest, x.second, y.state⟩ schedule
    (z.1, (true, y.events) :: z.2)
  | false :: schedule =>
    let y := x.second.turn h c x.state
    let z := interleave h c ⟨x.first, y.rest, y.state⟩ schedule
    (z.1, (false, y.events) :: z.2)

/-- What holds of a pair and the log to come, and is kept by each turn while the
log is used up, holds of the pair that is left. -/
theorem Pair.interleave_keeps {h : Handler ι ρ σ} {c : Atomic ι ρ}
    {I : Pair ι ρ α β σ → List (Bool × List (Event ι ρ)) → Prop}
    (hfirst : ∀ x log, I x ((true, (x.first.turn h c x.state).events) :: log) →
      I ⟨(x.first.turn h c x.state).rest, x.second, (x.first.turn h c x.state).state⟩ log)
    (hsecond : ∀ x log, I x ((false, (x.second.turn h c x.state).events) :: log) →
      I ⟨x.first, (x.second.turn h c x.state).rest, (x.second.turn h c x.state).state⟩ log)
    (schedule : List Bool) {x : Pair ι ρ α β σ} (hx : I x (x.interleave h c schedule).2) :
    I (x.interleave h c schedule).1 [] := by
  induction schedule generalizing x with
  | nil => exact hx
  | cons turn schedule ih =>
    cases turn with
    | true => exact ih (hfirst x _ hx)
    | false => exact ih (hsecond x _ hx)

end Libfcd.Interaction
