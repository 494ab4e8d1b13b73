import Libfcd.Devices.Bootloader

namespace Libfcd.Proofs
open Interaction Memory Model Devices

variable {σ : Type}

/-- A pointer that `fcd_io` is given and cannot do without is NULL. -/
def BadPointer (dev : Option Fcd) (idata : Option Bytes) (ilen : UInt8) (odata : Option Buffer)
    (olen : UInt8) : Prop :=
  dev = none ∨ (ilen ≠ 0 ∧ idata = none) ∨ (olen ≠ 0 ∧ odata = none)

instance (dev : Option Fcd) (idata : Option Bytes) (ilen : UInt8) (odata : Option Buffer)
    (olen : UInt8) : Decidable (BadPointer dev idata ilen odata olen) :=
  inferInstanceAs (Decidable (_ ∨ _))

/-- The arguments are refused before anything is opened. -/
theorem fcdIo_refused {dev : Option Fcd} {idata : Option Bytes} {ilen : UInt8}
    {odata : Option Buffer} {olen : UInt8} (hbad : BadPointer dev idata ilen odata olen)
    (cmd iskip : UInt8) :
    fcdIo dev cmd iskip idata ilen odata olen = .done (.error .efault, odata) := by
  cases dev with
  | none => rfl
  | some d =>
    have hguard := hbad.resolve_left (by simp)
    rw [fcdIo, if_pos hguard]
    rfl

/-- A path that does not open ends the call before the union is touched. -/
theorem fcdIo_notOpened {h : Host σ} {s : σ} {dev : Fcd} {idata : Option Bytes} {ilen : UInt8}
    {odata : Option Buffer} {olen : UInt8} (hgood : ¬ BadPointer (some dev) idata ilen odata olen)
    (hopen : (opening h dev.path s).1 = none) (cmd iskip : UInt8) :
    Program.Runs h (fcdIo (some dev) cmd iskip idata ilen odata olen) s (.error .enodev, odata)
      (opening h dev.path s).2 [⟨.hidOpenPath dev.path, (none : Option Handle)⟩] := by
  have hguard : ¬ ((ilen ≠ 0 ∧ idata = none) ∨ (olen ≠ 0 ∧ odata = none)) :=
    fun hc => hgood (.inr hc)
  rw [fcdIo, if_neg hguard]
  exact runs_open (Prod.ext hopen rfl) (.done h _ _)

/-- The call comes as far as to the union. -/
def Reaches (h : Host σ) (s : σ) (dev : Option Fcd) (idata : Option Bytes) (ilen : UInt8)
    (odata : Option Buffer) (olen : UInt8) : Prop :=
  ¬ BadPointer dev idata ilen odata olen ∧ ∃ d, dev = some d ∧ (opening h d.path s).1 ≠ none

/-- A call of hidapi that stays within the union. -/
def Fits : Happening → Prop
  | ⟨.hidWrite _ data, _⟩ => data.length ≤ fcdBufferLen
  | ⟨.hidRead _ length, _⟩ => length ≤ fcdBufferLen
  | _ => True

/-- What the trimming is there for: no load or store leaves its object, nothing
that has not been written is sent, and the lengths add up. -/
structure InBounds (h : Host σ) (s : σ) (dev : Option Fcd) (cmd iskip : UInt8)
    (idata : Option Bytes) (ilen : UInt8) (odata : Option Buffer) (olen : UInt8) : Prop where
  accesses : ∃ r t es, Program.Runs h (fcdIo dev cmd iskip idata ilen odata olen) s r t es ∧
    ∀ e ∈ es, Fits e
  trimmed : Reaches h s dev idata ilen odata olen →
    iskip.toNat + (trimIlen iskip ilen).toNat ≤ fcdCommandDataLen ∧
      (trimOlen olen).toNat ≤ fcdResponseDataLen

theorem Exchange.fits {q : Request} (hreport : q.report.length ≤ fcdBufferLen)
    (hwant : q.want ≤ fcdBufferLen) (x : Exchange) : ∀ e ∈ x.events q, Fits e := by
  cases x <;> simp [Exchange.events, Fits, hreport, hwant]

/-- A skip of more than 63 bytes: the padding alone does not fit. -/
theorem fillCommand_overrun {iskip : UInt8} (hskip : 63 < iskip.toNat) (cmd : UInt8)
    (idata : Option Bytes) (ilen : UInt8) : fillCommand cmd iskip idata ilen = none := by
  have h0 : (Buffer.fresh fcdBufferLen).put 0 [some 0] = some ([some 0] ++ Buffer.fresh 64) :=
    Buffer.put_fresh [] [some 0] (r := 65) (by simp)
  have h1 : Buffer.put ([some 0] ++ Buffer.fresh 64) 1 [some cmd] =
      some ([some 0, some cmd] ++ Buffer.fresh 63) :=
    Buffer.put_fresh [some 0] [some cmd] (by simp)
  have h2 : Buffer.put ([some 0, some cmd] ++ Buffer.fresh 63) 2
      (List.replicate iskip.toNat (some 0)) = none := by
    apply if_neg
    simp
    omega
  simp only [fillCommand, h0, h1, h2, bind, Option.bind_some, Option.bind_none]

theorem fcdIo_overruns {h : Host σ} {s : σ} {dev : Option Fcd} {iskip : UInt8}
    {idata : Option Bytes} {ilen : UInt8} {odata : Option Buffer} {olen : UInt8}
    (hreach : Reaches h s dev idata ilen odata olen) (hskip : 63 < iskip.toNat) (cmd : UInt8) :
    Program.run h (fcdIo dev cmd iskip idata ilen odata olen) s = none := by
  obtain ⟨hgood, d, rfl, hopen⟩ := hreach
  have hguard : ¬ ((ilen ≠ 0 ∧ idata = none) ∨ (olen ≠ 0 ∧ odata = none)) :=
    fun hc => hgood (.inr hc)
  obtain ⟨hidDev, hdev⟩ := Option.ne_none_iff_exists'.mp hopen
  simp only [fcdIo, if_neg hguard, hidOpenPath_bind, run_open, hdev, fillCommand_overrun hskip,
    Program.expect_none, Program.wrong_bind, Program.run_wrong]

theorem room_of_writable {odata : Option Buffer} {olen : UInt8}
    (hodata : ∀ b, odata = some b → olen.toNat ≤ b.length) (hnull : olen ≠ 0 → odata ≠ none) :
    Room (trimOlen olen).toNat odata := by
  rw [trimOlen_toNat]
  cases odata with
  | none =>
    have h0 : olen = 0 := by
      by_contra hne
      exact hnull hne rfl
    simp [Room, h0]
  | some b =>
    have := hodata b rfl
    simp only [Room]
    omega

theorem length_readable {idata : Option Bytes} {ilen : UInt8}
    (hidata : ∀ data, idata = some data → ilen.toNat ≤ data.length)
    (hnull : ilen ≠ 0 → idata ≠ none) : ilen.toNat ≤ (idata.getD []).length := by
  cases idata with
  | none =>
    have h0 : ilen = 0 := by
      by_contra hne
      exact hnull hne rfl
    simp [h0]
  | some data => exact hidata data rfl

/-- Within its bounds a call whose pointers are good makes one exchange. -/
theorem fcdIo_exchanges (h : Host σ) (s : σ) {dev : Fcd} {iskip : UInt8} {idata : Option Bytes}
    {ilen : UInt8} {odata : Option Buffer} {olen : UInt8}
    (hgood : ¬ BadPointer (some dev) idata ilen odata olen)
    (hidata : ∀ data, idata = some data → ilen.toNat ≤ data.length)
    (hodata : ∀ b, odata = some b → olen.toNat ≤ b.length) (hskip : iskip.toNat ≤ 63)
    (cmd : UInt8) :
    let q := request dev cmd iskip (idata.getD []) ilen olen
    Program.Runs h (fcdIo (some dev) cmd iskip idata ilen odata olen) s
      (settle odata ((converse h q s).1.outcome q)) (converse h q s).2
      ((converse h q s).1.events q) := by
  have hinput : ilen ≠ 0 → idata ≠ none := fun hne hnone => hgood (.inr (.inl ⟨hne, hnone⟩))
  have houtput : olen ≠ 0 → odata ≠ none := fun hne hnone => hgood (.inr (.inr ⟨hne, hnone⟩))
  exact fcdIo_spec h s dev cmd iskip idata ilen odata olen hskip hinput
    (length_readable hidata hinput) (room_of_writable hodata houtput)

/-- The lengths of the request that is made. -/
theorem request_fits (dev : Fcd) (cmd : UInt8) {iskip ilen : UInt8} {data : Bytes}
    (hdata : ilen.toNat ≤ data.length) (hskip : iskip.toNat ≤ 63) (olen : UInt8) :
    (request dev cmd iskip data ilen olen).report.length ≤ fcdBufferLen ∧
      (request dev cmd iskip data ilen olen).want ≤ fcdBufferLen := by
  have hi := trimIlen_toNat ilen hskip
  have ho := trimOlen_toNat olen
  constructor
  · simp only [request, length_frame, List.length_take, fcdBufferLen, fcdCommandDataLen]
    omega
  · simp only [request, fcdBufferLen, fcdCommandDataLen]
    omega

/-- Every access of `fcd_io` is in bounds exactly when the skip leaves room for
itself, or the call ends before it is used. -/
theorem fcdIo_inBounds_iff (h : Host σ) (s : σ) (dev : Option Fcd) (cmd iskip : UInt8)
    (idata : Option Bytes) (ilen : UInt8) (odata : Option Buffer) (olen : UInt8)
    (hidata : ∀ data, idata = some data → ilen.toNat ≤ data.length)
    (hodata : ∀ b, odata = some b → olen.toNat ≤ b.length) :
    (InBounds h s dev cmd iskip idata ilen odata olen ↔
      (Reaches h s dev idata ilen odata olen → iskip.toNat ≤ 63)) ∧
    (Reaches h s dev idata ilen odata olen → 63 < iskip.toNat →
      Program.run h (fcdIo dev cmd iskip idata ilen odata olen) s = none) := by
  refine ⟨⟨fun hin hreach => ?_, fun hcond => ⟨?_, fun hreach => ?_⟩⟩,
    fun hreach hskip => fcdIo_overruns hreach hskip cmd⟩
  · obtain ⟨hsum, -⟩ := hin.trimmed hreach
    simp only [fcdCommandDataLen] at hsum
    omega
  · by_cases hbad : BadPointer dev idata ilen odata olen
    · rw [fcdIo_refused hbad]
      exact ⟨_, s, [], .done h _ s, by simp⟩
    obtain ⟨d, rfl⟩ : ∃ d, dev = some d :=
      Option.ne_none_iff_exists'.mp (fun hnone => hbad (.inl hnone))
    by_cases hopen : (opening h d.path s).1 = none
    · exact ⟨_, _, _, fcdIo_notOpened hbad hopen cmd iskip, by simp [Fits]⟩
    · have hskip := hcond ⟨hbad, d, rfl, hopen⟩
      have hinput : ilen ≠ 0 → idata ≠ none := fun hne hnone => hbad (.inr (.inl ⟨hne, hnone⟩))
      obtain ⟨hreport, hwant⟩ := request_fits d cmd (length_readable hidata hinput) hskip olen
      exact ⟨_, _, _, fcdIo_exchanges h s hbad hidata hodata hskip cmd,
        Exchange.fits hreport hwant _⟩
  · have hi := trimIlen_toNat ilen (hcond hreach)
    have ho := trimOlen_toNat olen
    have hskip := hcond hreach
    simp only [fcdCommandDataLen, fcdResponseDataLen]
    omega

theorem fcdIo_inBounds_iff_largest_skip :
    InBounds (Link.host (Boot.serve id)) ⟨oneBlock, [], []⟩ (some ⟨0, "dongle", 1⟩) 27 63
      (some [1, 2, 3]) 3 none 0 :=
  (fcdIo_inBounds_iff (Link.host (Boot.serve id)) ⟨oneBlock, [], []⟩ (some ⟨0, "dongle", 1⟩) 27 63
    (some [1, 2, 3]) 3 none 0 (by simp) (by simp)).1.mpr (fun _ => by decide)

/-- One byte more to skip, and the padding is stored behind the union. -/
theorem fcdIo_pads_out_of_bounds :
    (64 : UInt8).toNat + (trimIlen 64 0).toNat = 64 ∧
      Program.run (Link.host (Boot.serve id)) (fcdIo (some ⟨0, "dongle", 1⟩) 27 64 none 0 none 0)
        ⟨oneBlock, [], []⟩ = none ∧
      ¬ InBounds (Link.host (Boot.serve id)) ⟨oneBlock, [], []⟩ (some ⟨0, "dongle", 1⟩) 27 64
        none 0 none 0 := by
  have hrun : Program.run (Link.host (Boot.serve id))
      (fcdIo (some ⟨0, "dongle", 1⟩) 27 64 none 0 none 0) ⟨oneBlock, [], []⟩ = none := rfl
  refine ⟨by decide, hrun, fun hin => ?_⟩
  obtain ⟨r, t, es, hgood, -⟩ := hin.accesses
  rw [hgood.run] at hrun
  cases hrun

end Libfcd.Proofs
