import Libfcd.Devices.Link
import Libfcd.Interaction.Schedule

namespace Libfcd.Proofs
open Interaction Memory Model Devices

variable {σ D α β : Type}

/-- While a process has a device open no other process gets to it. -/
def exchanges : Atomic Call Call.Answer where
  enters
    | ⟨.hidOpenPath _, dev⟩ => Option.isSome dev
    | _ => false
  leaves
    | ⟨.hidClose (some _), _⟩ => true
    | _ => false

theorem Exchange.whole (q : Request) (x : Exchange) : exchanges.Whole (x.events q) := by
  cases x with
  | notOpened => exact .inl ⟨_, rfl, rfl⟩
  | notWritten dev count =>
    exact .inr ⟨_, [⟨.hidWrite dev q.report, count⟩], _, rfl, rfl, by simp [exchanges], rfl⟩
  | answered dev count received =>
    exact .inr ⟨_, [⟨.hidWrite dev q.report, count⟩, ⟨.hidRead dev q.want, received⟩], _, rfl, rfl,
      by simp [exchanges], rfl⟩

/-- The turn of a program that goes on with an exchange. -/
theorem turn_exchange {h : Host σ} {p : Hid α} {q : Request} {s : σ} {r : α}
    (hp : Program.Runs h p s r (converse h q s).2 ((converse h q s).1.events q)) (f : α → Hid β) :
    Program.turn h exchanges (p >>= f) s =
      ⟨f r, (converse h q s).2, (converse h q s).1.events q⟩ :=
  Program.turn_bind hp (Exchange.whole q _) f

/-- What every report leaves true of the device is true of it after a turn. -/
theorem turn_keeps {serve : Serve D} {h : Host σ} {view : σ → D} (a : Attached serve h view)
    {P : D → Prop} (hP : ∀ report d, P d → P (serve report d).2) (p : Hid α) {s : σ}
    (hs : P (view s)) : P (view (Program.turn h exchanges p s).state) := by
  have hfinish : ∀ (p : Hid α) s, P (view s) → P (view (Program.finish h exchanges p s).state) := by
    intro p
    induction p with
    | done r => exact fun s hs => hs
    | wrong => exact fun s hs => hs
    | call i next ih =>
      intro s hs
      rw [Program.finish]
      split
      · exact a.call_keeps hP i hs
      · exact ih _ _ (a.call_keeps hP i hs)
  cases p with
  | done r => exact hs
  | wrong => exact hs
  | call i next =>
    rw [Program.turn]
    split
    · exact hfinish _ _ (a.call_keeps hP i hs)
    · exact a.call_keeps hP i hs

/-- A report with this command is among those handed to `hid_write`. -/
def Carries (es : List Happening) (cmd : UInt8) : Prop := cmd ∈ (reports es).map (·.getD 1 0)

instance (es : List Happening) (cmd : UInt8) : Decidable (Carries es cmd) :=
  inferInstanceAs (Decidable (_ ∈ _))

theorem Exchange.carries {q : Request} {x : Exchange} {cmd : UInt8} :
    Carries (x.events q) cmd ↔ x ≠ .notOpened ∧ q.command = cmd := by
  cases x <;> simp [Carries, Exchange.events, reports, Request.command, eq_comm]

theorem carries_of_succeeded {q : Request} {x : Exchange}
    (hx : (⟨q, x⟩ : Transaction).succeeded = true) : Carries (x.events q) q.command :=
  Exchange.carries.mpr ⟨bne_iff_ne.mp (Transaction.sent_of_succeeded hx), rfl⟩

/-- A program made of whole exchanges and of stretches that write nothing. Its
requests are among those it `asks`, as long as the exchanges are such as the
device `tells`. -/
inductive Converses (h : Host σ) (asks : Request → Prop) (tells : Request → Exchange → Prop) :
    Hid α → Prop
  | done (a : α) : Converses h asks tells (.done a)
  | wrong : Converses h asks tells .wrong
  | quiet {β : Type} {p : Hid β} {f : β → Hid α}
      (hp : ∀ s, ∃ r t es, Program.Runs h p s r t es ∧ exchanges.Whole es ∧ reports es = [])
      (hf : ∀ r, Converses h asks tells (f r)) : Converses h asks tells (p >>= f)
  | exchange {β : Type} {p : Hid β} {f : β → Hid α} (q : Request) (result : Exchange → β)
      (hq : asks q)
      (hp : ∀ s, Program.Runs h p s (result (converse h q s).1) (converse h q s).2
        ((converse h q s).1.events q))
      (hf : ∀ x, tells q x → Converses h asks tells (f (result x))) :
      Converses h asks tells (p >>= f)

namespace Converses

variable {h : Host σ} {asks : Request → Prop} {tells : Request → Exchange → Prop} {p : Hid α}

theorem bind (hp : Converses h asks tells p) {f : α → Hid β}
    (hf : ∀ a, Converses h asks tells (f a)) : Converses h asks tells (p >>= f) := by
  induction hp with
  | done a => exact hf a
  | wrong => exact .wrong
  | quiet hp _ ih =>
    rw [bind_assoc]
    exact .quiet hp ih
  | exchange q result hq hp _ ih =>
    rw [bind_assoc]
    exact .exchange q result hq hp ih

/-- A single call that neither opens nor writes. -/
theorem call {i : Call} {next : i.Answer → Hid α}
    (hi : ∀ r, exchanges.enters ⟨i, r⟩ = false ∧ reports [⟨i, r⟩] = [])
    (hnext : ∀ r, Converses h asks tells (next r)) : Converses h asks tells (.call i next) :=
  .quiet (p := Program.perform i) (fun _ => ⟨_, _, _, .call (.done h _ _),
    .inl ⟨_, rfl, (hi _).1⟩, (hi _).2⟩) hnext

/-- A turn leaves the device alone, or it is an exchange the program may ask for. -/
theorem turn {serve : Serve D} {view : σ → D} (a : Attached serve h view)
    (hp : Converses h asks tells p) (s : σ) :
    let y := Program.turn h exchanges p s
    (view y.state = view s ∧ Converses h asks tells y.rest) ∨
      ∃ q, asks q ∧ y.events = (converse h q s).1.events q ∧ y.state = (converse h q s).2 ∧
        (tells q (converse h q s).1 → Converses h asks tells y.rest) := by
  cases hp with
  | done b => exact .inl ⟨rfl, .done b⟩
  | wrong => exact .inl ⟨rfl, .wrong⟩
  | quiet hp hf =>
    obtain ⟨r, t, es, hrun, hwhole, hes⟩ := hp s
    rw [Program.turn_bind hrun hwhole]
    exact .inl ⟨a.quiet hrun hes, hf r⟩
  | exchange q result hq hp hf =>
    rw [turn_exchange (hp s)]
    exact .inr ⟨q, hq, rfl, rfl, hf _⟩

end Converses

end Libfcd.Proofs
