import Libfcd.Interaction.Settles
import Libfcd.Model.Flash
import Libfcd.Proofs.Opening
import Libfcd.Proofs.Verify
import Libfcd.Proofs.WriteTrace

namespace Libfcd.Proofs
open Interaction Memory Model Devices

variable {σ : Type}

/-- An event that puts nothing on the wire but reports with these commands. -/
def Sends (cmds : List UInt8) (e : Happening) : Prop :=
  ∀ report ∈ reports [e], report.getD 1 0 ∈ cmds

theorem sends_reports {cmds : List UInt8} {es : List Happening} (h : ∀ e ∈ es, Sends cmds e) :
    ∀ report ∈ reports es, report.getD 1 0 ∈ cmds := by
  induction es with
  | nil => simp [reports]
  | cons e es ih =>
    rw [← List.singleton_append, reports_append]
    refine List.forall_mem_append.mpr ⟨h e (by simp), ih (fun e he => h e (by simp [he]))⟩

theorem Exchange.sends {cmds : List UInt8} {q : Request} (hq : q.command ∈ cmds) (x : Exchange) :
    ∀ e ∈ x.events q, Sends cmds e := by
  have hq : q.report.getD 1 0 ∈ cmds := hq
  rw [List.getD_eq_getElem?_getD] at hq
  cases x <;> simp [Exchange.events, Sends, reports, hq]

theorem Opening.sends (cmds : List UInt8) (path : String) (o : Opening) :
    ∀ e ∈ o.events path, Sends cmds e := by
  cases o <;> simp [Opening.events, Sends, reports]

/-- A program that is one exchange. -/
theorem settles_exchange {α : Type} {h : Host σ} {cmds : List UInt8} {p : Hid α} (q : Request)
    (hq : q.command ∈ cmds) (hp : ∀ s, ∃ r, Program.Runs h p s r (converse h q s).2
      ((converse h q s).1.events q)) :
    Program.Settles h (Sends cmds) p (fun _ => True) := by
  intro s
  obtain ⟨r, hrun⟩ := hp s
  exact ⟨r, _, _, hrun, trivial, Exchange.sends hq _⟩

/-- The commands of the boot loader that the flash tool uses. -/
def flashCommands : List UInt8 :=
  [fcdCmdEraseApplication, fcdCmdSetByteAddr, fcdCmdGetByteAddrRange, fcdCmdWriteBlock,
    fcdCmdReadBlock]

/-- The size of an image as an `unsigned int` is no more than its length. -/
theorem size_le_image {ctx : FlashContext} (h : ctx.image.length = ctx.size.toNat) :
    ctx.size.toUInt32.toNat ≤ ctx.image.length := by
  rw [h, UInt64.toNat_toUInt32]
  exact Nat.mod_le _ _

variable (h : Host σ) (host : Endian) (dev : Fcd)

theorem sweep_settles (size : UInt32) {body : UInt32 → Hid (Option Int)}
    (hbody : ∀ addr, addr.toNat + 48 ≤ size.toNat →
      Program.Settles h (Sends flashCommands) (body addr) (fun _ => True)) :
    Program.Settles h (Sends flashCommands) (sweep host (some dev) size body) (fun _ => True) := by
  refine (settles_exchange (rangeRequest dev)
    (by decide : fcdCmdGetByteAddrRange ∈ flashCommands)
    (fun s => ⟨_, fcdBlGetAddressRange_spec h s host dev⟩)).bind (fun range _ => ?_)
  rcases range with e | ⟨start, stop⟩
  · exact .done trivial
  by_cases hs : Sane start stop size
  · rw [sweepRange_sane host (some dev) body hs]
    refine (settles_exchange (addressRequest dev start)
      (by decide : fcdCmdSetByteAddr ∈ flashCommands)
      (fun s => ⟨_, fcdBlSetAddress_spec h s host dev start⟩)).bind (fun status _ => ?_)
    cases status with
    | error e => exact .done trivial
    | ok u =>
      refine (Program.Settles.scan (fun addr ha => hbody addr ?_)).bind (fun left _ => ?_)
      · exact Nat.le_trans (le_of_mem_addresses (Nat.le_of_eq hs.1.mul_blockCount) stop.toNat_lt ha)
          hs.2
      · cases left with
        | none => exact .done trivial
        | some r => exact .done trivial
  · rw [sweepRange_refused host (some dev) body hs]
    exact .done trivial

theorem fcdBlFlashWrite_settles {data : Bytes} {size : UInt32} (hsize : size.toNat ≤ data.length) :
    Program.Settles h (Sends flashCommands) (fcdBlFlashWrite host (some dev) data size)
      (fun _ => True) := by
  rw [fcdBlFlashWrite_eq]
  apply sweep_settles h host dev size
  intro addr ha
  exact settles_exchange (blockRequest dev ((pointer data addr).take 48))
    (by decide : fcdCmdWriteBlock ∈ flashCommands)
    (fun s => ⟨_, writeBody_runs h s dev data addr (Nat.le_trans ha hsize)⟩)

theorem fcdBlFlashVerify_settles {data : Bytes} {size : UInt32} (hsize : size.toNat ≤ data.length) :
    Program.Settles h (Sends flashCommands) (fcdBlFlashVerify host (some dev) data size)
      (fun _ => True) := by
  rw [fcdBlFlashVerify_eq]
  apply sweep_settles h host dev size
  intro addr ha
  exact settles_exchange (readRequest dev) (by decide : fcdCmdReadBlock ∈ flashCommands)
    (fun s => ⟨_, verifyBody_runs h s dev data addr (Nat.le_trans ha hsize)⟩)

theorem complain_settles (cmds : List UInt8) (result : Int) (text : String) :
    Program.Settles h (Sends cmds) (complain result text) (fun _ => True) := by
  unfold complain
  split
  · exact .perform (fun _ => by simp [Sends, reports])
  · exact .done trivial

variable (path : String) (ctx : FlashContext)

theorem flashErase_settles :
    Program.Settles h (Sends flashCommands) (flashErase path dev ctx) (fun _ => True) := by
  unfold flashErase
  split
  · refine (settles_exchange (eraseRequest dev) (by decide : fcdCmdEraseApplication ∈ flashCommands)
      (fun s => ⟨_, fcdBlEraseApplication_spec h s dev⟩)).bind (fun result _ => ?_)
    exact (complain_settles h _ _ _).bind (fun _ _ => .done trivial)
  · exact .done trivial

variable {ctx}

theorem flashWrite_settles
    (hsize : ctx.wants actionWrite → ctx.size.toUInt32.toNat ≤ ctx.image.length)
    (before : Int) :
    Program.Settles h (Sends flashCommands) (flashWrite host path dev ctx before)
      (fun _ => True) := by
  unfold flashWrite
  split
  · rename_i hw
    apply (fcdBlFlashWrite_settles h host dev (hsize hw.2)).bind
    intro result _
    exact (complain_settles h _ _ _).bind (fun _ _ => .done trivial)
  · exact .done trivial

theorem flashVerify_settles
    (hsize : ctx.wants actionVerify → ctx.size.toUInt32.toNat ≤ ctx.image.length) (before : Int) :
    Program.Settles h (Sends flashCommands) (flashVerify host path dev ctx before)
      (fun _ => True) := by
  unfold flashVerify
  split
  · rename_i hw
    apply (fcdBlFlashVerify_settles h host dev (hsize hw.2)).bind
    intro result _
    exact (complain_settles h _ _ _).bind (fun _ _ => .done trivial)
  · exact .done trivial

/-- The steps for a dongle end, with the context as it was and with no other
commands than those of the boot loader. -/
theorem funcubeFlash_settles
    (hwrite : ctx.wants actionWrite → ctx.size.toUInt32.toNat ≤ ctx.image.length)
    (hverify : ctx.wants actionVerify → ctx.size.toUInt32.toNat ≤ ctx.image.length) :
    Program.Settles h (Sends flashCommands) (funcubeFlash host path ctx)
      (fun r => r.2 = ctx) := by
  have hopen : Program.Settles h (Sends flashCommands) (fcdOpen (some path)) (fun _ => True) :=
    fun s => ⟨_, _, _, fcdOpen_spec h path s, trivial, Opening.sends _ _ _⟩
  apply hopen.bind
  intro fcd _
  cases fcd with
  | none => exact .done rfl
  | some fcd =>
    apply (flashErase_settles h fcd path ctx).bind
    intro result _
    apply (flashWrite_settles h host fcd path hwrite result).bind
    intro result _
    apply (flashVerify_settles h host fcd path hverify result).bind
    intro result _
    have hclose : Program.Settles h (Sends flashCommands) (fcdClose (some fcd)) (fun _ => True) :=
      fun s => ⟨_, _, _, fcdClose_spec h s fcd, trivial, by simp [Sends, reports]⟩
    exact hclose.bind (fun _ _ => .done rfl)

end Libfcd.Proofs
