import Libfcd.Interaction.Loop

namespace Libfcd.Interaction

/-- An observer of a run: what it knows after each event, or nothing for an
event against its rules. -/
abbrev Watch (ι : Type) (ρ : ι → Type) (ω : Type) : Type := ω → Event ι ρ → Option ω

variable {ι : Type} {ρ : ι → Type} {α β γ σ ω υ : Type}

/-- Two observers of the same run. -/
def Watch.both (first : Watch ι ρ ω) (second : Watch ι ρ υ) : Watch ι ρ (ω × υ) := fun w e =>
  (first w.1 e).bind (fun x => (second w.2 e).map (fun y => (x, y)))

theorem Watch.both_eq_some {first : Watch ι ρ ω} {second : Watch ι ρ υ} {w w' : ω × υ}
    {e : Event ι ρ} :
    Watch.both first second w e = some w' ↔ first w.1 e = some w'.1 ∧ second w.2 e = some w'.2 := by
  simp only [Watch.both, Option.bind_eq_some_iff, Option.map_eq_some_iff, Prod.ext_iff]
  constructor
  · rintro ⟨x, hx, y, hy, rfl, rfl⟩
    exact ⟨hx, hy⟩
  · rintro ⟨hx, hy⟩
    exact ⟨_, hx, _, hy, rfl, rfl⟩

namespace Program

/-- Whatever it is answered, the program keeps to the rules and ends as `Q`
asks. One that goes wrong has kept to them until then. -/
def Obeys (watch : Watch ι ρ ω) : Program ι ρ α → ω → (α → ω → Prop) → Prop
  | .done a, w, Q => Q a w
  | .call i next, w, Q => ∀ r, ∃ w', watch w ⟨i, r⟩ = some w' ∧ Obeys watch (next r) w' Q
  | .wrong, _, _ => True

variable {watch : Watch ι ρ ω} {p : Program ι ρ α} {f : α → Program ι ρ β} {w : ω}

theorem Obeys.bind {P : α → ω → Prop} {Q : β → ω → Prop} (hp : Obeys watch p w P)
    (hf : ∀ a w', P a w' → Obeys watch (f a) w' Q) : Obeys watch (p >>= f) w Q := by
  induction p generalizing w with
  | done a => exact hf a w hp
  | call i next ih =>
    intro r
    obtain ⟨w', hw, hnext⟩ := hp r
    exact ⟨w', hw, ih r hnext⟩
  | wrong => trivial

/-- A call that the rules allow whatever the answer, and what follows on it. -/
theorem Obeys.perform {i : ι} {f : ρ i → Program ι ρ β} {Q : β → ω → Prop}
    (h : ∀ r, ∃ w', watch w ⟨i, r⟩ = some w' ∧ Obeys watch (f r) w' Q) :
    Obeys watch (Program.perform i >>= f) w Q := h

theorem Obeys.expect {o : Option α} {Q : α → ω → Prop} (h : ∀ a, o = some a → Q a w) :
    Obeys watch (expect o) w Q := by
  cases o with
  | none => trivial
  | some a => exact h a rfl

/-- The rules of two observers at once. -/
theorem Obeys.both {second : Watch ι ρ υ} {v : υ} {P : α → ω → Prop} {Q : α → υ → Prop}
    (hp : Obeys watch p w P) (hq : Obeys second p v Q) :
    Obeys (Watch.both watch second) p (w, v) (fun a x => P a x.1 ∧ Q a x.2) := by
  induction p generalizing w v with
  | done a => exact ⟨hp, hq⟩
  | call i next ih =>
    intro r
    obtain ⟨w', hw, hnext⟩ := hp r
    obtain ⟨v', hv, hnext'⟩ := hq r
    exact ⟨(w', v'), Watch.both_eq_some.mpr ⟨hw, hv⟩, ih r hnext hnext'⟩
  | wrong => trivial

/-- The rules are kept in the run on every host, and `Q` holds where it ends. -/
theorem Obeys.sound {Q : α → ω → Prop} (hp : Obeys watch p w Q) (h : Handler ι ρ σ) (s : σ) :
    ∃ w', (events h p s).foldlM watch w = some w' ∧
      ∀ a t, run h p s = some (a, t) → Q a w' := by
  induction p generalizing w s with
  | done a =>
    refine ⟨w, rfl, fun b t hrun => ?_⟩
    obtain ⟨rfl, -⟩ := Prod.mk.inj (Option.some.inj hrun)
    exact hp
  | call i next ih =>
    obtain ⟨w', hw, hnext⟩ := hp (h i s).1
    obtain ⟨w'', hfold, hend⟩ := ih _ hnext (h i s).2
    refine ⟨w'', ?_, hend⟩
    rw [events_call, List.foldlM_cons, hw]
    exact hfold
  | wrong => exact ⟨w, rfl, fun b t hrun => by cases hrun⟩

/-- Started where `I` holds, the program leaves the observer as it found it. -/
def Neutral (watch : Watch ι ρ ω) (I : ω → Prop) (p : Program ι ρ α) : Prop :=
  ∀ w, I w → Obeys watch p w (fun _ w' => w' = w)

namespace Neutral

variable {I : ω → Prop}

theorem done (a : α) : Neutral watch I (.done a) := fun _ _ => rfl

theorem expect (o : Option α) : Neutral watch I (expect o) :=
  fun _ _ => Obeys.expect (fun _ _ => rfl)

theorem bind (hp : Neutral watch I p) (hf : ∀ a, Neutral watch I (f a)) :
    Neutral watch I (p >>= f) := by
  intro w hw
  apply (hp w hw).bind
  intro a w' hw'
  subst hw'
  exact hf a w' hw

theorem perform {i : ι} (hi : ∀ w r, I w → watch w ⟨i, r⟩ = some w) :
    Neutral watch I (perform i) :=
  fun w hw r => ⟨w, hi w r hw, rfl⟩

theorem scan {body : β → Program ι ρ (Option γ)} (hbody : ∀ b, Neutral watch I (body b))
    (bs : List β) : Neutral watch I (Program.scan body bs) := by
  induction bs with
  | nil => exact done none
  | cons b bs ih =>
    apply (hbody b).bind
    intro o
    cases o with
    | none => exact ih
    | some r => exact done (some r)

theorem loop {l : LoopHead β} {body : β → Program ι ρ (Option γ)}
    (hbody : ∀ b, Neutral watch I (body b)) (n : Nat) (b : β) (hb : l.inv b)
    (hn : l.fuel b ≤ n) : Neutral watch I (l.loop body n b hb hn) := by
  rw [l.loop_eq]
  apply (scan hbody _).bind
  intro o
  cases o with
  | none => exact done _
  | some r => exact done _

end Neutral

end Program

end Libfcd.Interaction
