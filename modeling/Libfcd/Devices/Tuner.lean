import Libfcd.Devices.Link
import Libfcd.Proofs.Tuner
import Mathlib.Logic.Function.Basic

namespace Libfcd.Devices
open Interaction Memory Model Proofs

/-- A dongle in application mode: the payload kept for each command that gets one. -/
structure Tuner where
  registers : UInt8 → Bytes

namespace Tuner

def store (d : Tuner) (register : UInt8) (payload : Bytes) : Tuner :=
  ⟨Function.update d.registers register payload⟩

def serve : Serve Tuner := fun report d =>
  let cmd := report.getD 1 0
  let payload := report.drop 2
  if cmd = 101 then (some [], d.store 102 payload)
  else if cmd = 106 then (some [], d.store 107 payload)
  else if cmd = 108 then (some [], d.store 109 payload)
  else if 110 ≤ cmd ∧ cmd < 127 then (some [], d.store (cmd + 40) payload)
  else if cmd = 102 ∨ cmd = 107 ∨ cmd = 109 ∨ (150 ≤ cmd ∧ cmd < 167) then
    (some (d.registers cmd), d)
  else (none, d)

end Tuner

variable {σ D : Type}

/-- A link on which an exchange that fails has not moved the device. Each
exchange asks for the header of a response at least. -/
structure Lossless (serve : Serve D) (h : Host σ) (view : σ → D) : Prop
    extends Attached serve h view where
  clean : ∀ q s e, 2 ≤ q.want → (converse h q s).1.outcome q = .error e →
    view (converse h q s).2 = view s

namespace Link

/-- A link that may fail to open, and does not fail after that. -/
def gated (serve : Serve D) : Host (Link D) := fun c s =>
  match c with
  | .hidOpenPath path => host serve (.hidOpenPath path) s
  | c =>
    let r := host serve c { s with faults := [] }
    (r.1, { r.2 with faults := s.faults })

theorem converse_gated (serve : Serve D) (q : Request) (s : Link D) :
    converse (gated serve) q s =
      if s.faults.headD none = none then
        (.answered 0 q.report.length ⟨q.want, (s.next.act serve q.report).response⟩,
          s.next.act serve q.report)
      else (.notOpened, s.next) := by
  have hopen : opening (gated serve) q.path s = opening (host serve) q.path s := rfl
  have hcount : (q.report.length : Int) ≥ q.report.length := Int.le_refl _
  by_cases hf : s.faults.headD none = none
  · simp only [converse, hopen, opening_host, if_pos hf, writing, reading, closing, gated, host,
      List.headD_nil]
    exact if_pos hcount
  · simp only [converse, hopen, opening_host, if_neg hf]

/-- A device that changes nothing when it refuses loses nothing on such a link. -/
theorem lossless_gated {serve : Serve D}
    (hs : ∀ report d, (serve report d).1 = none → (serve report d).2 = d) :
    Lossless serve (gated serve) device where
  still c s hc := by
    cases c with
    | hidWrite dev report => exact absurd rfl (hc dev report)
    | hidOpenPath path => simp only [gated, host]; split <;> rfl
    | _ => rfl
  acts dev report s := .inr rfl
  honest q s bytes ho := by
    rw [converse_gated] at ho ⊢
    split at ho
    · rename_i hopen
      rw [if_pos hopen]
      exact ⟨rfl, reply_act (Exchange.outcome_answered.mp ho)⟩
    · cases ho
  clean q s e hwant ho := by
    rw [converse_gated] at ho ⊢
    split at ho
    · rename_i hopen
      rw [if_pos hopen]
      refine hs q.report s.device (Option.eq_none_iff_forall_ne_some.mpr fun data hdata => ?_)
      obtain ⟨want, hq⟩ := Nat.exists_eq_add_of_le' hwant
      simp [Exchange.outcome, reply, act, next, hdata, hq, Request.command] at ho
    · rename_i hopen
      rw [if_neg hopen]
      rfl

end Link

theorem Tuner.serve_refused (report : Bytes) (d : Tuner) (h : (Tuner.serve report d).1 = none) :
    (Tuner.serve report d).2 = d := by
  simp only [Tuner.serve] at h ⊢
  split_ifs at h ⊢
  rfl

end Libfcd.Devices
