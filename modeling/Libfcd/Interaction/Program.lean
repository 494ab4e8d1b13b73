import Mathlib.Control.Basic
import Mathlib.Tactic.MkIffOfInductiveProp

namespace Libfcd.Interaction

/-- A sequential program seen through the calls it makes on its surroundings.
`ρ i` is what the surroundings may answer to `i`, and `wrong` is a program that
has left the rules of its language (an access out of bounds, say). -/
inductive Program (ι : Type) (ρ : ι → Type) (α : Type) where
  | done (a : α)
  | call (i : ι) (next : ρ i → Program ι ρ α)
  | wrong

variable {ι : Type} {ρ : ι → Type} {α β γ σ : Type}

namespace Program

def bind (p : Program ι ρ α) (f : α → Program ι ρ β) : Program ι ρ β :=
  match p with
  | .done a => f a
  | .call i next => .call i (fun r => (next r).bind f)
  | .wrong => .wrong

instance : Monad (Program ι ρ) where
  pure := .done
  bind := .bind

@[simp] theorem pure_eq (a : α) : (pure a : Program ι ρ α) = .done a := rfl

@[simp] theorem done_bind (a : α) (f : α → Program ι ρ β) : (.done a >>= f) = f a := rfl

@[simp] theorem call_bind (i : ι) (next : ρ i → Program ι ρ α) (f : α → Program ι ρ β) :
    (.call i next >>= f) = .call i (fun r => next r >>= f) := rfl

@[simp] theorem wrong_bind (f : α → Program ι ρ β) :
    ((.wrong : Program ι ρ α) >>= f) = .wrong := rfl

instance : LawfulMonad (Program ι ρ) := LawfulMonad.mk' (Program ι ρ)
  (by
    intro α p
    change p.bind .done = p
    induction p with
    | done a => rfl
    | call i next ih => simp only [bind, ih]
    | wrong => rfl)
  (by intros; rfl)
  (by
    intro α β γ p f g
    change (p.bind f).bind g = p.bind (fun a => (f a).bind g)
    induction p with
    | done a => rfl
    | call i next ih => simp only [bind, ih]
    | wrong => rfl)

/-- Make one call and return its answer. -/
def perform (i : ι) : Program ι ρ (ρ i) := .call i .done

@[simp] theorem perform_bind (i : ι) (f : ρ i → Program ι ρ β) :
    (perform i >>= f) = .call i f := rfl

/-- A partial operation of the language: undefined results go wrong. -/
def expect : Option α → Program ι ρ α
  | some a => .done a
  | none => .wrong

@[simp] theorem expect_some (a : α) : (expect (some a) : Program ι ρ α) = .done a := rfl

@[simp] theorem expect_none : (expect none : Program ι ρ α) = .wrong := rfl

end Program

/-- Surroundings with a state of their own: each call is answered and may
change that state. Any behaviour in time is such a function of some state. -/
abbrev Handler (ι : Type) (ρ : ι → Type) (σ : Type) : Type := (i : ι) → σ → ρ i × σ

/-- One call together with its answer. -/
abbrev Event (ι : Type) (ρ : ι → Type) : Type := (i : ι) × ρ i

namespace Program

/-- The result and the final state of the surroundings, or nothing if the
program went wrong on the way. -/
def run (h : Handler ι ρ σ) : Program ι ρ α → σ → Option (α × σ)
  | .done a, s => some (a, s)
  | .call i next, s => run h (next (h i s).1) (h i s).2
  | .wrong, _ => none

/-- The calls made, in order, with their answers. -/
def events (h : Handler ι ρ σ) : Program ι ρ α → σ → List (Event ι ρ)
  | .done _, _ => []
  | .call i next, s => ⟨i, (h i s).1⟩ :: events h (next (h i s).1) (h i s).2
  | .wrong, _ => []

@[simp] theorem run_done (h : Handler ι ρ σ) (a : α) (s : σ) :
    run h (.done a) s = some (a, s) := rfl

@[simp] theorem run_call (h : Handler ι ρ σ) (i : ι) (next : ρ i → Program ι ρ α) (s : σ) :
    run h (.call i next) s = run h (next (h i s).1) (h i s).2 := rfl

@[simp] theorem run_wrong (h : Handler ι ρ σ) (s : σ) :
    run h (.wrong : Program ι ρ α) s = none := rfl

@[simp] theorem events_done (h : Handler ι ρ σ) (a : α) (s : σ) :
    events h (.done a) s = [] := rfl

@[simp] theorem events_call (h : Handler ι ρ σ) (i : ι) (next : ρ i → Program ι ρ α) (s : σ) :
    events h (.call i next) s =
      ⟨i, (h i s).1⟩ :: events h (next (h i s).1) (h i s).2 := rfl

@[simp] theorem events_wrong (h : Handler ι ρ σ) (s : σ) :
    events h (.wrong : Program ι ρ α) s = [] := rfl

/-- What the surroundings answer to a call in any state, it is answered in a run. -/
theorem answer_of_mem_events {h : Handler ι ρ σ} {i : ι} {P : ρ i → Prop} (hi : ∀ s, P (h i s).1)
    {p : Program ι ρ α} {s : σ} {r : ρ i} (hr : ⟨i, r⟩ ∈ events h p s) : P r := by
  induction p generalizing s with
  | done a => cases hr
  | call j next ih =>
    rcases List.mem_cons.mp hr with heq | htail
    · cases heq
      exact hi s
    · exact ih _ htail
  | wrong => cases hr

theorem run_bind (h : Handler ι ρ σ) (p : Program ι ρ α) (f : α → Program ι ρ β) (s : σ) :
    run h (p >>= f) s = (run h p s).bind (fun x => run h (f x.1) x.2) := by
  induction p generalizing s with
  | done a => rfl
  | call i next ih => exact ih _ _
  | wrong => rfl

/-- What is done after a first part that ended in `a` and left the state `t`. -/
theorem run_bind_of_run {h : Handler ι ρ σ} {p : Program ι ρ α} {s t : σ} {a : α}
    (hp : run h p s = some (a, t)) (f : α → Program ι ρ β) :
    run h (p >>= f) s = run h (f a) t := by
  simp [run_bind, hp]

theorem events_bind_of_run {h : Handler ι ρ σ} {p : Program ι ρ α} {s t : σ} {a : α}
    (hp : run h p s = some (a, t)) (f : α → Program ι ρ β) :
    events h (p >>= f) s = events h p s ++ events h (f a) t := by
  induction p generalizing s with
  | done b =>
    simp only [run_done, Option.some.injEq, Prod.mk.injEq] at hp
    simp [hp.1, hp.2]
  | call i next ih => simp [ih _ hp]
  | wrong => simp at hp

/-- A whole run: from `s` the program makes the calls `es`, returns `a` and
leaves its surroundings in `t`. -/
@[mk_iff] structure Runs (h : Handler ι ρ σ) (p : Program ι ρ α) (s : σ) (a : α) (t : σ)
    (es : List (Event ι ρ)) : Prop where
  run : Program.run h p s = some (a, t)
  events : Program.events h p s = es

theorem Runs.done (h : Handler ι ρ σ) (a : α) (s : σ) : Runs h (.done a) s a s [] := ⟨rfl, rfl⟩

theorem Runs.call {h : Handler ι ρ σ} {i : ι} {next : ρ i → Program ι ρ α} {s t : σ} {a : α}
    {es : List (Event ι ρ)} (hn : Runs h (next (h i s).1) (h i s).2 a t es) :
    Runs h (.call i next) s a t (⟨i, (h i s).1⟩ :: es) :=
  ⟨hn.run, congrArg (List.cons _) hn.events⟩

/-- A host answers in one way, so a program has one run on it. -/
theorem Runs.unique {h : Handler ι ρ σ} {p : Program ι ρ α} {s t u : σ} {a b : α}
    {es fs : List (Event ι ρ)} (hp : Runs h p s a t es) (hp' : Runs h p s b u fs) :
    a = b ∧ t = u ∧ es = fs := by
  obtain ⟨rfl, rfl⟩ := Prod.mk.inj (Option.some.inj (hp.run.symm.trans hp'.run))
  exact ⟨rfl, rfl, hp.events.symm.trans hp'.events⟩

/-- A call and what follows on its answer. -/
theorem Runs.perform {h : Handler ι ρ σ} {i : ι} {r : ρ i} {s t u : σ} {a : α}
    {es : List (Event ι ρ)} (hr : h i s = (r, t)) {f : ρ i → Program ι ρ α}
    (hf : Runs h (f r) t a u es) : Runs h (Program.perform i >>= f) s a u (⟨i, r⟩ :: es) := by
  obtain ⟨rfl, rfl⟩ := Prod.mk.inj hr
  exact hf.call

/-- Runs of two parts, one after the other. -/
theorem Runs.bind {h : Handler ι ρ σ} {p : Program ι ρ α} {f : α → Program ι ρ β} {s t u : σ}
    {a : α} {b : β} {es fs : List (Event ι ρ)} (hp : Runs h p s a t es)
    (hf : Runs h (f a) t b u fs) : Runs h (p >>= f) s b u (es ++ fs) := by
  refine ⟨?_, ?_⟩
  · rw [run_bind_of_run hp.run, hf.run]
  · rw [events_bind_of_run hp.run, hp.events, hf.events]

/-- The second part makes no calls. -/
theorem Runs.bind_done {h : Handler ι ρ σ} {p : Program ι ρ α} {f : α → Program ι ρ β} {s t : σ}
    {a : α} {b : β} {es : List (Event ι ρ)} (hp : Runs h p s a t es) (hf : f a = .done b) :
    Runs h (p >>= f) s b t es := by
  have hrest : Runs h (f a) t b t [] := by
    rw [hf]
    exact Runs.done h b t
  have := hp.bind hrest
  rwa [List.append_nil] at this

end Program

end Libfcd.Interaction
