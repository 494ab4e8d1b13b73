import Libfcd.Interaction.Loop

namespace Libfcd.Interaction

variable {ι : Type} {ρ : ι → Type} {α β γ σ : Type}

/-- From every state the program comes to an end, with a result that `Q` allows
and through events that `E` allows. -/
def Program.Settles (h : Handler ι ρ σ) (E : Event ι ρ → Prop) (p : Program ι ρ α)
    (Q : α → Prop) : Prop :=
  ∀ s, ∃ a t es, Runs h p s a t es ∧ Q a ∧ ∀ e ∈ es, E e

namespace Program.Settles

variable {h : Handler ι ρ σ} {E : Event ι ρ → Prop} {p : Program ι ρ α}

theorem done {Q : α → Prop} {a : α} (ha : Q a) : Settles h E (.done a) Q :=
  fun s => ⟨a, s, [], .done h a s, ha, by simp⟩

theorem perform {i : ι} (hi : ∀ r, E ⟨i, r⟩) : Settles h E (perform i) (fun _ => True) :=
  fun s => ⟨(h i s).1, (h i s).2, [⟨i, (h i s).1⟩], .call (.done h _ _), trivial, by simp [hi]⟩

theorem bind {f : α → Program ι ρ β} {P : α → Prop} {Q : β → Prop} (hp : Settles h E p P)
    (hf : ∀ a, P a → Settles h E (f a) Q) : Settles h E (p >>= f) Q := by
  intro s
  obtain ⟨a, t, es, hrun, ha, hes⟩ := hp s
  obtain ⟨b, u, fs, hrun', hb, hfs⟩ := hf a ha t
  exact ⟨b, u, es ++ fs, hrun.bind hrun', hb, List.forall_mem_append.mpr ⟨hes, hfs⟩⟩

theorem scan {body : β → Program ι ρ (Option γ)} {bs : List β}
    (hbody : ∀ b ∈ bs, Settles h E (body b) (fun _ => True)) :
    Settles h E (Program.scan body bs) (fun _ => True) := by
  induction bs with
  | nil => exact done trivial
  | cons b bs ih =>
    apply (hbody b (by simp)).bind
    intro o _
    cases o with
    | none => exact ih (fun b hb => hbody b (by simp [hb]))
    | some r => exact done trivial

theorem loop {l : LoopHead β} {body : β → Program ι ρ (Option γ)} {n : Nat} {b : β}
    (hbody : ∀ b' ∈ l.visits n b, Settles h E (body b') (fun _ => True)) (hb : l.inv b)
    (hn : l.fuel b ≤ n) : Settles h E (l.loop body n b hb hn) (fun _ => True) := by
  rw [l.loop_eq]
  apply (scan hbody).bind
  intro o _
  cases o with
  | none => exact done trivial
  | some r => exact done trivial

end Program.Settles

end Libfcd.Interaction
