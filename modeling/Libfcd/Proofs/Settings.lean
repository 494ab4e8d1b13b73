import Libfcd.Devices.Fleet
import Libfcd.Proofs.Registers

namespace Libfcd.Proofs
open Interaction Memory Model Devices

variable {σ : Type}

section
variable {D : Type} {serve : Serve D} {h : Host σ} {view : σ → Fleet D}

end

section
variable {h : Host σ} {view : σ → Fleet Tuner}

end

/-- A call of a session with a tuner. -/
inductive Setting where
  | set (c : Setter)
  | get (g : Getter)
  deriving DecidableEq

/-- What a call of a session gives back: its error, or what it got. -/
def Setting.call (host : Endian) (dev : Fcd) : Setting → Hid (Except Errno (Option Arguments))
  | .set c => do
    let status ← c.call host dev
    pure (status.map (fun _ => none))
  | .get g => do
    let r ← g.call host dev
    pure (r.map some)

/-- A call with what it gave back. -/
abbrev Entry := (Fcd × Setting) × Except Errno (Option Arguments)

/-- The call set this register of this dongle, and succeeded. -/
def Acknowledged (path : String) (register : UInt8) (e : Entry) : Prop :=
  e.1.1.path = path ∧ (∃ c, e.1.2 = .set c ∧ c.register = register) ∧ e.2.toBool = true

/-- The call sent this value for this register of this dongle: it was accepted, and the
dongle could be opened. It may have failed after that. -/
structure Sent (path : String) (register : UInt8) (c : Setter) (e : Entry) : Prop where
  dongle : e.1.1.path = path
  setting : e.1.2 = .set c
  register : c.register = register
  accepted : c.Accepted
  opened : e.2 ≠ .error .enodev

/-- What a register may hold after a session: what was sent there, nothing after it
having been acknowledged, or what it held before, nothing having been acknowledged. -/
inductive Current (path : String) (register : UInt8) : List Entry → Option Setter → Prop where
  | before {log : List Entry} (hnone : ∀ e ∈ log, ¬ Acknowledged path register e) :
      Current path register log none
  | set (front : List Entry) {e : Entry} {c : Setter} (back : List Entry)
      (hsent : Sent path register c e) (hback : ∀ e ∈ back, ¬ Acknowledged path register e) :
      Current path register (front ++ e :: back) (some c)

theorem Current.next {path : String} {register : UInt8} {log : List Entry} {x : Option Setter}
    (h : Current path register log x) {e : Entry} (he : ¬ Acknowledged path register e) :
    Current path register (log ++ [e]) x := by
  cases h with
  | before hnone => exact .before (List.forall_mem_append.mpr ⟨hnone, by simpa using he⟩)
  | set front back hsent hback =>
    rw [List.append_assoc, List.cons_append]
    exact .set front (back ++ [e]) hsent (List.forall_mem_append.mpr ⟨hback, by simpa using he⟩)

/-- A value that a register may hold was sent there. -/
theorem Current.sent {path : String} {register : UInt8} {log : List Entry} {c : Setter}
    (h : Current path register log (some c)) : ∃ e ∈ log, Sent path register c e := by
  cases h with
  | set front back hsent hback => exact ⟨_, by simp, hsent⟩

/-- What a session has left in the registers of all dongles. -/
def Kept (before after : String → Tuner) (log : List Entry) : Prop :=
  ∀ path register, ∃ x, Current path register log x ∧
    (after path).registers register =
      (x.map Setter.payload).getD ((before path).registers register)

/-- A call that moved nothing and was not acknowledged. -/
theorem Kept.still {before after : String → Tuner} {log : List Entry} (h : Kept before after log)
    {e : Entry} (he : ∀ path register, ¬ Acknowledged path register e) :
    Kept before after (log ++ [e]) := by
  intro path register
  obtain ⟨x, hx, hregister⟩ := h path register
  exact ⟨x, hx.next (he path register), hregister⟩

/-- A call that set a register, whether it was acknowledged or not. -/
theorem Kept.stored {before after : String → Tuner} {log : List Entry} (h : Kept before after log)
    (dev : Fcd) {c : Setter} (hc : c.Accepted) {r : Except Errno (Option Arguments)}
    (hr : r ≠ .error .enodev) :
    Kept before (Function.update after dev.path ((after dev.path).store c.register c.payload))
      (log ++ [((dev, .set c), r)]) := by
  intro path register
  by_cases hsame : dev.path = path ∧ c.register = register
  · obtain ⟨rfl, rfl⟩ := hsame
    refine ⟨some c, .set log [] ⟨rfl, rfl, rfl, hc, hr⟩ (by simp), ?_⟩
    simp [Tuner.store]
  · obtain ⟨x, hx, hregister⟩ := h path register
    refine ⟨x, hx.next ?_, ?_⟩
    · intro hack
      obtain ⟨hdev, ⟨c', hset, hc'⟩, -⟩ := hack
      obtain rfl := Setting.set.inj hset
      exact hsame ⟨hdev, hc'⟩
    · rw [← hregister]
      by_cases hpath : path = dev.path
      · subst hpath
        have hne : register ≠ c.register := fun heq => hsame ⟨rfl, heq.symm⟩
        simp [Tuner.store, hne]
      · rw [Function.update_of_ne hpath]

section
variable {h : Host σ} {view : σ → Fleet Tuner}

/-- A getter reads nothing but its register. -/
theorem reads_congr {d d' : Tuner} {g : Getter}
    (hd : d.registers g.register = d'.registers g.register) : g.reads d = g.reads d' := by
  cases g with
  | dc => simp only [Getter.reads, show d.registers 107 = d'.registers 107 from hd]
  | iq => simp only [Getter.reads, show d.registers 109 = d'.registers 109 from hd]
  | frequency => simp only [Getter.reads, show d.registers 102 = d'.registers 102 from hd]
  | value id before => rfl
  | biasTee before => rfl

/-- The byte of the caller that a getter leaves as it is, where it does so. -/
def Getter.ownByte : Getter → Option UInt8
  | .value _ before | .biasTee before => some before
  | _ => none

/-- What a getter that succeeds gives back of a register in which `x` is current. -/
structure GivesBack (g : Getter) (before : Tuner) (x : Option Setter) (got : Arguments) :
    Prop where
  own : ∀ byte, g.ownByte = some byte → got = .byte byte
  sent : g.ownByte = none → ∀ c, x = some c → got = c.arguments
  unsent : g.ownByte = none → x = none → got = g.reads before

/-- What a getter reads of what a session has left. -/
theorem Kept.reads {before after : String → Tuner} {log : List Entry} (h : Kept before after log)
    (path : String) (g : Getter) : ∃ x, Current path g.register log x ∧
      GivesBack g (before path) x (g.reads (after path)) := by
  obtain ⟨x, hcurrent, hregister⟩ := h path g.register
  refine ⟨x, hcurrent, ?_, ?_, ?_⟩
  · intro byte hbyte
    cases g with
    | value id b =>
      obtain rfl := Option.some.inj hbyte
      rfl
    | biasTee b =>
      obtain rfl := Option.some.inj hbyte
      rfl
    | _ => cases hbyte
  · intro hown c hc
    subst hc
    obtain ⟨e, -, hsent⟩ := hcurrent.sent
    refine (Getter.reads_iff hsent.accepted hsent.register hregister).mpr ?_
    cases g with
    | value id b => cases hown
    | biasTee b => cases hown
    | _ => trivial
  · intro _ hx
    subst hx
    exact reads_congr hregister

end

end Libfcd.Proofs
