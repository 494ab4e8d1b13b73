import Libfcd.Interaction.Program

namespace Libfcd.Interaction

/-- The head of a counting loop, `for (b = ..; test b; b = step b)`, with what
makes it end: an invariant of the counter under which `fuel` falls. -/
structure LoopHead (β : Type) where
  test : β → Bool
  step : β → β
  inv : β → Prop
  fuel : β → Nat
  falls : ∀ b, inv b → test b = true → inv (step b) ∧ fuel (step b) < fuel b

variable {ι : Type} {ρ : ι → Type} {β γ σ : Type}

/-- Run the body on each counter until one asks to leave the loop. -/
def Program.scan (body : β → Program ι ρ (Option γ)) : List β → Program ι ρ (Option γ)
  | [] => .done none
  | b :: bs => body b >>= fun
    | some r => .done (some r)
    | none => scan body bs

/-- A round that leaves the loop. -/
theorem Program.Runs.scan_leave {h : Handler ι ρ σ} {body : β → Program ι ρ (Option γ)} {b : β}
    {r : γ} {s t : σ} {es : List (Event ι ρ)} (hb : Runs h (body b) s (some r) t es)
    (bs : List β) : Runs h (scan body (b :: bs)) s (some r) t es := by
  rw [scan]
  exact hb.bind_done rfl

/-- A round that goes on to the next. -/
theorem Program.Runs.scan_next {h : Handler ι ρ σ} {body : β → Program ι ρ (Option γ)} {b : β}
    {bs : List β} {o : Option γ} {s t u : σ} {es fs : List (Event ι ρ)}
    (hb : Runs h (body b) s none t es) (hbs : Runs h (scan body bs) t o u fs) :
    Runs h (scan body (b :: bs)) s o u (es ++ fs) := by
  rw [scan]
  exact hb.bind hbs

namespace LoopHead

/-- The loop itself. It ends with the value it was left with, or with the
counter that failed the test; `n` bounds the number of rounds. -/
def loop (l : LoopHead β) (body : β → Program ι ρ (Option γ)) (n : Nat) (b : β)
    (hb : l.inv b) (hn : l.fuel b ≤ n) : Program ι ρ (γ ⊕ β) :=
  if ht : l.test b = true then
    match n with
    | 0 => absurd (Nat.lt_of_lt_of_le (l.falls b hb ht).2 hn) (Nat.not_lt_zero _)
    | n + 1 => body b >>= fun
      | some r => .done (.inl r)
      | none => loop l body n (l.step b) (l.falls b hb ht).1
          (Nat.le_of_lt_succ (Nat.lt_of_lt_of_le (l.falls b hb ht).2 hn))
  else .done (.inr b)

/-- The counters the body is entered with when it never leaves early. -/
def visits (l : LoopHead β) : Nat → β → List β
  | 0, _ => []
  | n + 1, b => if l.test b then b :: visits l n (l.step b) else []

/-- The counter that ends the loop. -/
def last (l : LoopHead β) : Nat → β → β
  | 0, b => b
  | n + 1, b => if l.test b then last l n (l.step b) else b

/-- A loop is a scan of the counters it visits. -/
theorem loop_eq (l : LoopHead β) (body : β → Program ι ρ (Option γ)) (n : Nat) (b : β)
    (hb : l.inv b) (hn : l.fuel b ≤ n) :
    l.loop body n b hb hn = Program.scan body (l.visits n b) >>= fun
      | some r => .done (.inl r)
      | none => .done (.inr (l.last n b)) := by
  induction n generalizing b with
  | zero =>
    have ht : ¬ l.test b = true := by
      intro ht
      have := (l.falls b hb ht).2
      omega
    rw [loop, dif_neg ht]
    rfl
  | succ n ih =>
    by_cases ht : l.test b = true
    · rw [loop, dif_pos ht]
      simp only [visits, last, if_pos ht, Program.scan, bind_assoc]
      congr 1
      funext r
      cases r with
      | some r => rfl
      | none => exact ih _ _ _
    · rw [loop, dif_neg ht]
      simp only [visits, last, if_neg ht]
      rfl

/-- A loop runs as the scan of its counters does, and tells how that ended. -/
theorem loop_runs (l : LoopHead β) {h : Handler ι ρ σ} {body : β → Program ι ρ (Option γ)} {n : Nat}
    {b : β} (hb : l.inv b) (hn : l.fuel b ≤ n) {left : Option γ} {s t : σ} {es : List (Event ι ρ)}
    (hscan : Program.Runs h (Program.scan body (l.visits n b)) s left t es) :
    Program.Runs h (l.loop body n b hb hn) s (left.elim (.inr (l.last n b)) .inl) t es := by
  rw [loop_eq]
  cases left with
  | none => exact hscan.bind_done rfl
  | some r => exact hscan.bind_done rfl

end LoopHead

end Libfcd.Interaction
