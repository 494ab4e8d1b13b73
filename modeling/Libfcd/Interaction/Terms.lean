import Libfcd.Interaction.Watch

namespace Libfcd.Interaction

/-- What a program is judged by: the answers its surroundings promise, the rules
for its events, and whether going wrong is let pass. -/
structure Terms (ι : Type) (ρ : ι → Type) (ω : Type) where
  grants : Event ι ρ → Prop
  watch : Watch ι ρ ω
  lenient : Prop

variable {ι : Type} {ρ : ι → Type} {α β γ σ ω : Type}

/-- Surroundings that keep what the terms promise for them. -/
def Terms.Honoured (T : Terms ι ρ ω) (h : Handler ι ρ σ) : Prop :=
  ∀ i s, T.grants ⟨i, (h i s).1⟩

namespace Program

/-- As long as it is answered as promised, the program keeps to the rules and
ends as `Q` asks. -/
def Keeps (T : Terms ι ρ ω) : Program ι ρ α → ω → (α → ω → Prop) → Prop
  | .done a, w, Q => Q a w
  | .call i next, w, Q =>
    ∀ r, T.grants ⟨i, r⟩ → ∃ w', T.watch w ⟨i, r⟩ = some w' ∧ Keeps T (next r) w' Q
  | .wrong, _, _ => T.lenient

namespace Keeps

variable {T : Terms ι ρ ω} {p : Program ι ρ α} {f : α → Program ι ρ β} {w : ω}

theorem done {Q : α → ω → Prop} {a : α} (ha : Q a w) : Keeps T (.done a) w Q := ha

theorem mono {P Q : α → ω → Prop} (hp : Keeps T p w P) (hPQ : ∀ a w', P a w' → Q a w') :
    Keeps T p w Q := by
  induction p generalizing w with
  | done a => exact hPQ a w hp
  | call i next ih =>
    intro r hr
    obtain ⟨w', hw, hnext⟩ := hp r hr
    exact ⟨w', hw, ih r hnext⟩
  | wrong => exact hp

theorem bind {P : α → ω → Prop} {Q : β → ω → Prop} (hp : Keeps T p w P)
    (hf : ∀ a w', P a w' → Keeps T (f a) w' Q) : Keeps T (p >>= f) w Q := by
  induction p generalizing w with
  | done a => exact hf a w hp
  | call i next ih =>
    intro r hr
    obtain ⟨w', hw, hnext⟩ := hp r hr
    exact ⟨w', hw, ih r hnext⟩
  | wrong => exact hp

/-- A call that the rules allow whatever the answer, and what follows on it. -/
theorem perform {i : ι} {f : ρ i → Program ι ρ β} {Q : β → ω → Prop}
    (h : ∀ r, T.grants ⟨i, r⟩ → ∃ w', T.watch w ⟨i, r⟩ = some w' ∧ Keeps T (f r) w' Q) :
    Keeps T (Program.perform i >>= f) w Q := h

theorem expect {o : Option α} {Q : α → ω → Prop} (h : ∀ a, o = some a → Q a w)
    (hnone : o = none → T.lenient) : Keeps T (Program.expect o) w Q := by
  cases o with
  | none => exact hnone rfl
  | some a => exact h a rfl

theorem expect_bind {o : Option α} {Q : β → ω → Prop} (h : ∀ a, o = some a → Keeps T (f a) w Q)
    (hnone : o = none → T.lenient) : Keeps T (Program.expect o >>= f) w Q := by
  cases o with
  | none => exact hnone rfl
  | some a => exact h a rfl

/-- A walk over a list, where `I` holds before each entry with what is left. -/
theorem foldlM {body : β → γ → Program ι ρ β} {I : List γ → β → ω → Prop} {xs : List γ}
    (hbody : ∀ x rest b w, I (x :: rest) b w → Keeps T (body b x) w (I rest)) {b : β}
    (hI : I xs b w) : Keeps T (xs.foldlM body b) w (I []) := by
  induction xs generalizing b w with
  | nil => exact hI
  | cons x rest ih =>
    rw [List.foldlM_cons]
    exact (hbody x rest b w hI).bind (fun b w hI => ih hI)

/-- What the program does on surroundings that keep their promises. -/
theorem sound {Q : α → ω → Prop} (hp : Keeps T p w Q) {h : Handler ι ρ σ} (hh : T.Honoured h)
    (s : σ) : ∃ w', (events h p s).foldlM T.watch w = some w' ∧
      (∀ a t, run h p s = some (a, t) → Q a w') ∧ (run h p s = none → T.lenient) := by
  induction p generalizing w s with
  | done a =>
    refine ⟨w, rfl, fun b t hrun => ?_, fun hrun => by cases hrun⟩
    obtain ⟨rfl, -⟩ := Prod.mk.inj (Option.some.inj hrun)
    exact hp
  | call i next ih =>
    obtain ⟨w', hw, hnext⟩ := hp (h i s).1 (hh i s)
    obtain ⟨w'', hfold, hend⟩ := ih _ hnext (h i s).2
    refine ⟨w'', ?_, hend⟩
    rw [events_call, List.foldlM_cons, hw]
    exact hfold
  | wrong => exact ⟨w, rfl, (fun b t hrun => by cases hrun), fun _ => hp⟩

end Keeps

end Program

end Libfcd.Interaction
