import Libfcd.Interaction.Terms

namespace Libfcd.Interaction

/-- Code for the calls of one interface in terms of the calls of another, with a
state of its own. -/
abbrev Layer (ι : Type) (ρ : ι → Type) (κ : Type) (ψ : κ → Type) (τ : Type) : Type :=
  (i : ι) → τ → Program κ ψ (ρ i × τ)

variable {ι κ : Type} {ρ : ι → Type} {ψ : κ → Type} {α β σ τ ω υ : Type}

namespace Layer

/-- The program with the code of the layer in place of its calls. -/
def implement (l : Layer ι ρ κ ψ τ) : Program ι ρ α → τ → Program κ ψ (α × τ)
  | .done a, t => .done (a, t)
  | .call i next, t => l i t >>= fun x => implement l (next x.1) x.2
  | .wrong, _ => .wrong

variable {l : Layer ι ρ κ ψ τ}

@[simp] theorem implement_done (a : α) (t : τ) : l.implement (.done a) t = .done (a, t) := rfl

@[simp] theorem implement_call (i : ι) (next : ρ i → Program ι ρ α) (t : τ) :
    l.implement (.call i next) t = l i t >>= fun x => l.implement (next x.1) x.2 := rfl

@[simp] theorem implement_wrong (t : τ) : l.implement (.wrong : Program ι ρ α) t = .wrong := rfl

/-- The layer keeps `R` between the observer above, its own state and the observer
below, through every call that the rules above allow. -/
def Carries (l : Layer ι ρ κ ψ τ) (watch : Watch ι ρ ω) (T : Terms κ ψ υ)
    (R : ω → τ → υ → Prop) : Prop :=
  ∀ i t w v, R w t v → (∀ r, ∃ w', watch w ⟨i, r⟩ = some w') →
    Program.Keeps T (l i t) v (fun x v' => ∀ w', watch w ⟨i, x.1⟩ = some w' → R w' x.2 v')

/-- Rules kept above are kept below. -/
theorem Carries.keeps {watch : Watch ι ρ ω} {T : Terms κ ψ υ} {R : ω → τ → υ → Prop}
    (hl : l.Carries watch T R) (hT : T.lenient) {p : Program ι ρ α} {w : ω}
    {Q : α → ω → Prop} (hp : p.Obeys watch w Q) {t : τ} {v : υ} (hR : R w t v) :
    Program.Keeps T (l.implement p t) v (fun x v' => ∃ w', Q x.1 w' ∧ R w' x.2 v') := by
  induction p generalizing w t v with
  | done a => exact ⟨w, hp, hR⟩
  | call i next ih =>
    apply (hl i t w v hR (fun r => (hp r).imp (fun _ h => h.1))).bind
    intro x v' hx
    obtain ⟨w', hw, hnext⟩ := hp x.1
    exact ih x.1 hnext (hx w' hw)
  | wrong => exact hT

/-- The layer as surroundings of the program above it. Where its code goes wrong, any
answer will do. -/
def answers (l : Layer ι ρ κ ψ τ) (any : (i : ι) → ρ i) (h : Handler κ ψ σ) :
    Handler ι ρ (τ × σ) := fun i x =>
  match (l i x.1).run h x.2 with
  | some ((r, t), s) => (r, (t, s))
  | none => (any i, x)

variable {any : (i : ι) → ρ i} {h : Handler κ ψ σ}

theorem answers_eq {i : ι} {r : ρ i} {t t' : τ} {s s' : σ}
    (hrun : (l i t).run h s = some ((r, t'), s')) : l.answers any h i (t, s) = (r, (t', s')) := by
  simp only [answers, hrun]

/-- The first call of a program that runs to its end on a layer. -/
theorem run_call_eq_some {i : ι} {next : ρ i → Program ι ρ α} {t t' : τ} {s s' : σ} {a : α}
    (hrun : (l.implement (.call i next) t).run h s = some ((a, t'), s')) :
    ∃ r u v, (l i t).run h s = some ((r, u), v) ∧
      (l.implement (next r) u).run h v = some ((a, t'), s') := by
  rw [implement_call, Program.run_bind] at hrun
  obtain ⟨⟨⟨r, u⟩, v⟩, hcall, hrest⟩ := Option.bind_eq_some_iff.mp hrun
  exact ⟨r, u, v, hcall, hrest⟩

/-- A program ends on a layer as it ends on what the layer answers. -/
theorem run_answers {p : Program ι ρ α} {t t' : τ} {s s' : σ} {a : α}
    (hrun : (l.implement p t).run h s = some ((a, t'), s')) :
    p.run (l.answers any h) (t, s) = some (a, (t', s')) := by
  induction p generalizing t s with
  | done b =>
    obtain ⟨hb, rfl⟩ := Prod.mk.inj (Option.some.inj hrun)
    obtain ⟨rfl, rfl⟩ := Prod.mk.inj hb
    rfl
  | call i next ih =>
    obtain ⟨r, u, v, hcall, hrest⟩ := run_call_eq_some hrun
    rw [Program.run_call, answers_eq hcall]
    exact ih r hrest
  | wrong => cases hrun

/-- What `f` sees of the events below is what `g` sees of those above, when it is so
for each call. -/
theorem events_answers {f : Event κ ψ → List β} {g : Event ι ρ → List β}
    (hfg : ∀ i t s x s', (l i t).run h s = some (x, s') →
      ((l i t).events h s).flatMap f = g ⟨i, x.1⟩) {p : Program ι ρ α} {t t' : τ} {s s' : σ}
    {a : α} (hrun : (l.implement p t).run h s = some ((a, t'), s')) :
    ((l.implement p t).events h s).flatMap f =
      (p.events (l.answers any h) (t, s)).flatMap g := by
  induction p generalizing t s with
  | done b => rfl
  | call i next ih =>
    obtain ⟨r, u, v, hcall, hrest⟩ := run_call_eq_some hrun
    rw [implement_call, Program.events_bind_of_run hcall, List.flatMap_append,
      hfg i t s (r, u) v hcall, ih r hrest, Program.events_call, answers_eq hcall,
      List.flatMap_cons]
  | wrong => cases hrun

end Layer

end Libfcd.Interaction
