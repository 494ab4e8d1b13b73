import Libfcd.Interaction.Watch

namespace Libfcd.Interaction

variable {ι : Type} {ρ : ι → Type} {α β γ σ ω : Type}

namespace Program

/-- The runs of the two parts of a run. -/
theorem Runs.split {h : Handler ι ρ σ} {p : Program ι ρ α} {f : α → Program ι ρ β} {s u : σ}
    {b : β} {es : List (Event ι ρ)} (hrun : Runs h (p >>= f) s b u es) :
    ∃ a t es₁ es₂, Runs h p s a t es₁ ∧ Runs h (f a) t b u es₂ ∧ es = es₁ ++ es₂ := by
  obtain ⟨hrun, rfl⟩ := hrun
  rw [run_bind] at hrun
  obtain ⟨⟨a, t⟩, hp, hf⟩ := Option.bind_eq_some_iff.mp hrun
  exact ⟨a, t, _, _, ⟨hp, rfl⟩, ⟨hf, rfl⟩, events_bind_of_run hp f⟩

/-- Put together from pieces, with only plain computation between them. -/
inductive Built (piece : (β : Type) → Program ι ρ β → Prop) : Program ι ρ α → Prop where
  | done (a : α) : Built piece (.done a)
  | wrong : Built piece .wrong
  | piece {β : Type} {p : Program ι ρ β} {f : β → Program ι ρ α} (hp : piece β p)
      (hf : ∀ b, Built piece (f b)) : Built piece (p >>= f)

namespace Built

variable {piece : (β : Type) → Program ι ρ β → Prop} {p : Program ι ρ α}

theorem single (hp : piece α p) : Built piece p := by
  have h := Built.piece hp (f := .done) Built.done
  rwa [show p >>= Program.done = p from bind_pure p] at h

theorem bind {f : α → Program ι ρ β} (hp : Built piece p) (hf : ∀ a, Built piece (f a)) :
    Built piece (p >>= f) := by
  induction hp with
  | done a => exact hf a
  | wrong => exact .wrong
  | piece hp _ ih =>
    rw [bind_assoc]
    exact .piece hp ih

theorem expect (o : Option α) : Built piece (Program.expect o) := by
  cases o with
  | none => exact .wrong
  | some a => exact .done a

theorem scan {body : β → Program ι ρ (Option γ)} (hbody : ∀ b, Built piece (body b))
    (bs : List β) : Built piece (Program.scan body bs) := by
  induction bs with
  | nil => exact .done none
  | cons b bs ih =>
    apply (hbody b).bind
    intro o
    cases o with
    | none => exact ih
    | some r => exact .done (some r)

theorem loop {l : LoopHead β} {body : β → Program ι ρ (Option γ)}
    (hbody : ∀ b, Built piece (body b)) (n : Nat) (b : β) (hb : l.inv b) (hn : l.fuel b ≤ n) :
    Built piece (l.loop body n b hb hn) := by
  rw [l.loop_eq]
  apply (scan hbody _).bind
  intro o
  cases o with
  | none => exact .done _
  | some r => exact .done _

/-- An observer that every piece leaves as it found it. -/
theorem neutral {watch : Watch ι ρ ω} {I : ω → Prop} (hp : Built piece p)
    (hpiece : ∀ β q, piece β q → Neutral watch I q) : Neutral watch I p := by
  induction hp with
  | done a => exact .done a
  | wrong => exact fun _ _ => trivial
  | piece hp _ ih => exact (hpiece _ _ hp).bind ih

/-- How a run changes its surroundings, if that is known of each piece. -/
theorem relates {h : Handler ι ρ σ} {R : σ → σ → Prop} (hrefl : ∀ s, R s s)
    (htrans : ∀ s t u, R s t → R t u → R s u)
    (hpiece : ∀ β q, piece β q → ∀ s b t es, Runs h q s b t es → R s t) (hp : Built piece p)
    {s t : σ} {a : α} {es : List (Event ι ρ)} (hrun : Runs h p s a t es) : R s t := by
  induction hp generalizing s es with
  | done b =>
    obtain ⟨-, rfl⟩ := Prod.mk.inj (Option.some.inj hrun.run)
    exact hrefl s
  | wrong => cases hrun.run
  | piece hp _ ih =>
    obtain ⟨b, u, es₁, es₂, hfirst, hrest, rfl⟩ := hrun.split
    exact htrans s u t (hpiece _ _ hp s b u es₁ hfirst) (ih b hrest)

end Built

/-- Whatever it is answered, the program makes none but the calls that `P`
allows, and ends as `Q` asks. -/
def Confined (P : ι → Prop) : Program ι ρ α → (α → Prop) → Prop
  | .done a, Q => Q a
  | .call i next, Q => P i ∧ ∀ r, Confined P (next r) Q
  | .wrong, _ => True

namespace Confined

variable {P : ι → Prop} {p : Program ι ρ α}

theorem bind {f : α → Program ι ρ β} {Q : α → Prop} {R : β → Prop} (hp : Confined P p Q)
    (hf : ∀ a, Q a → Confined P (f a) R) : Confined P (p >>= f) R := by
  induction p with
  | done a => exact hf a hp
  | call i next ih => exact ⟨hp.1, fun r => ih r (hp.2 r)⟩
  | wrong => trivial

theorem mono {P' : ι → Prop} {Q : α → Prop} (hp : Confined P p Q) (hP : ∀ i, P i → P' i) :
    Confined P' p Q := by
  induction p with
  | done a => exact hp
  | call i next ih => exact ⟨hP i hp.1, fun r => ih r (hp.2 r)⟩
  | wrong => trivial

theorem perform {i : ι} {f : ρ i → Program ι ρ β} {Q : β → Prop} (hi : P i)
    (hf : ∀ r, Confined P (f r) Q) : Confined P (Program.perform i >>= f) Q := ⟨hi, hf⟩

theorem expect (o : Option α) : Confined P (Program.expect o : Program ι ρ α) (fun _ => True) := by
  cases o with
  | none => trivial
  | some a => trivial

theorem expect_bind {o : Option α} {f : α → Program ι ρ β} {R : β → Prop}
    (hf : ∀ a, o = some a → Confined P (f a) R) : Confined P (Program.expect o >>= f) R := by
  cases o with
  | none => trivial
  | some a => exact hf a rfl

/-- A walk over a list. -/
theorem foldlM {body : β → γ → Program ι ρ β}
    (hbody : ∀ b x, Confined P (body b x) (fun _ => True)) (xs : List γ) (b : β) :
    Confined P (xs.foldlM body b) (fun _ => True) := by
  induction xs generalizing b with
  | nil => trivial
  | cons x rest ih =>
    rw [List.foldlM_cons]
    exact (hbody b x).bind (fun b _ => ih b)

theorem scan {body : β → Program ι ρ (Option γ)}
    (hbody : ∀ b, Confined P (body b) (fun _ => True)) (bs : List β) :
    Confined P (Program.scan body bs) (fun _ => True) := by
  induction bs with
  | nil => trivial
  | cons b bs ih =>
    apply (hbody b).bind
    intro o _
    cases o with
    | none => exact ih
    | some r => trivial

theorem loop {l : LoopHead β} {body : β → Program ι ρ (Option γ)}
    (hbody : ∀ b, Confined P (body b) (fun _ => True)) (n : Nat) (b : β) (hb : l.inv b)
    (hn : l.fuel b ≤ n) : Confined P (l.loop body n b hb hn) (fun _ => True) := by
  rw [l.loop_eq]
  apply (scan hbody _).bind
  intro o _
  cases o with
  | none => trivial
  | some r => trivial

theorem any (p : Program ι ρ α) : Confined (fun _ => True) p (fun _ => True) := by
  induction p with
  | done a => trivial
  | call i next ih => exact ⟨trivial, ih⟩
  | wrong => trivial

/-- What is known of the result besides what an observer says. -/
theorem obeys {watch : Watch ι ρ ω} {w : ω} {Q : α → ω → Prop} {R : α → Prop}
    (hp : Confined P p R) (ho : Obeys watch p w Q) :
    Obeys watch p w (fun a w' => Q a w' ∧ R a) := by
  induction p generalizing w with
  | done a => exact ⟨ho, hp⟩
  | call i next ih =>
    intro r
    obtain ⟨w', hw, hnext⟩ := ho r
    exact ⟨w', hw, ih r (hp.2 r) hnext⟩
  | wrong => trivial

theorem built {piece : (β : Type) → Program ι ρ β → Prop} (hp : Built piece p)
    (hpiece : ∀ β q, piece β q → Confined P q (fun _ => True)) :
    Confined P p (fun _ => True) := by
  induction hp with
  | done a => trivial
  | wrong => trivial
  | piece hp _ ih => exact (hpiece _ _ hp).bind (fun b _ => ih b)

/-- An observer that takes no notice of the allowed calls. -/
theorem neutral {watch : Watch ι ρ ω} {I : ω → Prop} {Q : α → Prop} (hp : Confined P p Q)
    (hP : ∀ i, P i → ∀ r w, I w → watch w ⟨i, r⟩ = some w) : Neutral watch I p := by
  induction p with
  | done a => exact .done a
  | call i next ih => exact fun w hw r => ⟨w, hP i hp.1 r w hw, ih r (hp.2 r) w hw⟩
  | wrong => exact fun _ _ => trivial

/-- Surroundings that answer the allowed calls in the same way. -/
theorem runs {Q : α → Prop} (hp : Confined P p Q) {h g : Handler ι ρ σ}
    (hgh : ∀ i s, P i → g i s = h i s) {s t : σ} {a : α} {es : List (Event ι ρ)}
    (hrun : Runs h p s a t es) : Runs g p s a t es := by
  obtain ⟨hrun, rfl⟩ := hrun
  induction p generalizing s with
  | done b => exact ⟨hrun, rfl⟩
  | call i next ih =>
    have hi := hgh i s hp.1
    have hnext := ih (h i s).1 (hp.2 _) hrun
    rw [← hi] at hnext
    rw [events_call, ← hi]
    exact hnext.call
  | wrong => cases hrun

/-- The calls of a run. -/
theorem calls {Q : α → Prop} (hp : Confined P p Q) {h : Handler ι ρ σ} {s t : σ} {a : α}
    {es : List (Event ι ρ)} (hrun : Runs h p s a t es) : (∀ e ∈ es, P e.1) ∧ Q a := by
  obtain ⟨hrun, rfl⟩ := hrun
  induction p generalizing s with
  | done b =>
    obtain ⟨rfl, -⟩ := Prod.mk.inj (Option.some.inj hrun)
    exact ⟨by simp, hp⟩
  | call i next ih =>
    obtain ⟨hcalls, ha⟩ := ih (h i s).1 (hp.2 _) hrun
    exact ⟨List.forall_mem_cons.mpr ⟨hp.1, hcalls⟩, ha⟩
  | wrong => cases hrun

end Confined

end Program

end Libfcd.Interaction
