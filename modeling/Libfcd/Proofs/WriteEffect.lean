import Libfcd.Proofs.Verify
import Libfcd.Proofs.WriteTrace

namespace Libfcd.Proofs
open Interaction Memory Model Devices

variable {σ : Type}

/-- The dongle after a write that got through `k` blocks. -/
def written (b : Boot) (data : Bytes) (k : Nat) : Boot :=
  { b with
    flash := b.flash.overwrite b.start.toNat
      (data.extract b.start.toNat (b.start.toNat + 48 * k))
    pointer := b.start.toNat + 48 * k }

/-- The write blocks that the dongle acknowledged. -/
def acknowledgedBlocks (ts : List Transaction) : Nat :=
  ts.countP (fun t => t.request.command == fcdCmdWriteBlock && t.succeeded)

theorem written_holds (b : Boot) (data : Bytes) {k : Nat}
    (hfit : b.start.toNat + 48 * k ≤ data.length) :
    (written b data k).flash.Holds data b.start.toNat (b.start.toNat + 48 * k) :=
  b.flash.holds_overwrite hfit

theorem written_outside (b : Boot) (data : Bytes) {k x : Nat}
    (hx : x < b.start.toNat ∨ b.start.toNat + 48 * k ≤ x) :
    (written b data k).flash x = b.flash x := by
  refine b.flash.overwrite_outside (hx.imp_right (fun h => Nat.le_trans ?_ h))
  simp

/-- All blocks written make the image. -/
theorem written_matches (b : Boot) {data : Bytes} {size : UInt32} (hs : Sane b.start b.stop size)
    (hsize : size.toNat ≤ data.length) :
    (written b data (blockCount b.start b.stop)).Matches data := by
  have hend := hs.1.mul_blockCount
  have hfit := Nat.le_trans hs.2 hsize
  have hholds := written_holds b data (k := blockCount b.start b.stop) (by omega)
  rw [hend] at hholds
  exact (Boot.matches_iff (b := written b data (blockCount b.start b.stop)) hs hsize).mpr hholds

/-- The address and the first `k` blocks, once served, have written `k` blocks. -/
theorem serveAll_written (wipe : Plane UInt8 → Plane UInt8) (dev : Fcd) (b : Boot) {data : Bytes}
    {k : Nat} (hk : k ≤ blockCount b.start b.stop)
    (hfit : b.start.toNat + 48 * k ≤ data.length) :
    serveAll (Boot.serve wipe) ((writeRequests dev data b.start b.stop).take (k + 1)) b =
      written b data k := by
  have hlen : ∀ block ∈ blocksOf 48 data b.start.toNat k, block.length = 48 :=
    fun block hb => length_of_mem_blocksOf hfit hb
  have hblocks := Boot.serveAll_blocks wipe dev hlen { b with pointer := b.start.toNat }
  rw [writeRequests, List.take_succ_cons, blockRequests, ← List.map_take,
    take_blocksOf 48 data _ hk, serveAll, List.foldl_cons, Boot.serve_address]
  apply hblocks.trans
  simp only [flatten_blocksOf, length_blocksOf, written]

/-- When a block failed, the address and the acknowledged blocks succeeded. -/
theorem countP_of_block_failed {dev : Fcd} {data : Bytes} {start stop : UInt32}
    {ts : List Transaction} (h : UntilFailure (writeRequests dev data start stop) ts)
    (hr : writeResult ts = -5) :
    ts.countP Transaction.succeeded = acknowledgedBlocks ts + 1 := by
  obtain ⟨t, rest, rfl, ht, hrest⟩ := h
  cases hok : t.succeeded with
  | false =>
    obtain rfl : rest = [] := by simpa [hok] using hrest
    simp [writeResult, hok] at hr
  | true =>
    rw [if_pos hok] at hrest
    have hcommand : ∀ u ∈ rest, u.request.command = fcdCmdWriteBlock := by
      intro u hu
      have hmem := hrest.isPrefix.subset (List.mem_map_of_mem hu)
      obtain ⟨block, -, hq⟩ := List.mem_map.mp hmem
      rw [← hq]
      rfl
    have hother : (t.request.command == fcdCmdWriteBlock) = false := by
      rw [ht]
      rfl
    simp only [acknowledgedBlocks, List.countP_cons, hok, hother, if_true, Bool.false_and,
      Bool.false_eq_true, if_false, Nat.add_zero]
    congr 1
    apply List.countP_congr
    intro u hu
    simp [hcommand u hu]

/-- How far a write came: refused or stopped before the first block, through all
of them, or stopped at one that the dongle may or may not have stored. -/
inductive Progress (data : Bytes) (size : UInt32) (b b' : Boot) (result : Int) (k : Nat) : Prop
  | untouched (hr : -4 ≤ result ∧ result ≤ -1) (hb : b'.flash = b.flash)
  | complete (hr : result = 0) (hs : Sane b.start b.stop size)
      (hb : b' = written b data (blockCount b.start b.stop))
  | interrupted (hr : result = -5) (hs : Sane b.start b.stop size)
      (hk : k < blockCount b.start b.stop)
      (hb : b' = written b data k ∨ b' = written b data (k + 1))

section
variable {wipe : Plane UInt8 → Plane UInt8} {h : Host σ} {view : σ → Boot}

/-- The requests of a write, performed on the dongle. -/
theorem perform_progress (a : Attached (Boot.serve wipe) h view) (s : σ) (dev : Fcd) {data : Bytes}
    {size : UInt32} (hsize : size.toNat ≤ data.length)
    (hs : Sane (view s).start (view s).stop size) (first : Transaction)
    (hfirst : first.request = rangeRequest dev) :
    let p := perform h (writeRequests dev data (view s).start (view s).stop) s
    Progress data size (view s) (view p.2) (writeResult p.1)
      (acknowledgedBlocks (first :: p.1)) := by
  have hacked : ∀ ts, acknowledgedBlocks (first :: ts) = acknowledgedBlocks ts := by
    intro ts
    have hother : (first.request.command == fcdCmdWriteBlock) = false := by
      rw [hfirst]
      rfl
    simp [acknowledgedBlocks, hother]
  have hend := hs.1.mul_blockCount
  have hfit := Nat.le_trans hs.2 hsize
  have huntil := perform_untilFailure h (writeRequests dev data (view s).start (view s).stop) s
  have hview := a.perform (writeRequests dev data (view s).start (view s).stop) s
  have hqs : (writeRequests dev data (view s).start (view s).stop).length =
      blockCount (view s).start (view s).stop + 1 := by
    simp [writeRequests, blockRequests, length_blocksOf]
  have hcount := huntil.countP
  have hblock := countP_of_block_failed huntil
  rw [hqs] at hcount
  simp only [hacked]
  generalize perform h (writeRequests dev data (view s).start (view s).stop) s = p at *
  cases hall : p.1.all Transaction.succeeded with
  | true =>
    simp only [hall, if_true, Bool.true_eq_false, false_and, or_false] at hcount hview
    apply Progress.complete (by simp [writeResult, hall]) hs
    rw [hview, hcount]
    exact serveAll_written wipe dev (view s) (Nat.le_refl _) (by omega)
  | false =>
    simp only [hall, Bool.false_eq_true, if_false, true_and] at hcount hview
    obtain ⟨hlen, hlt⟩ := hcount
    cases hn : p.1.countP Transaction.succeeded with
    | zero =>
      rw [hn] at hlen hview
      apply Progress.untouched (by simp [writeResult, hall, hlen])
      rcases hview with hv | hv
      · rw [hv]
        rfl
      · rw [hv, serveAll_written wipe dev (view s) (Nat.zero_le _) (by omega)]
        simp [written]
    | succ k =>
      have hr : writeResult p.1 = -5 := by
        simp [writeResult, hall, hlen, hn]
      have hk := hblock hr
      rw [hn] at hview hk hlt
      obtain rfl := Nat.succ.inj hk
      refine .interrupted hr hs (by omega) (hview.imp (fun hv => ?_) (fun hv => ?_))
      · rw [hv]
        exact serveAll_written wipe dev (view s) (by omega) (by omega)
      · rw [hv]
        exact serveAll_written wipe dev (view s) (by omega) (by omega)

theorem write_progress (a : Attached (Boot.serve wipe) h view) (s : σ) (host : Endian) (dev : Fcd)
    {data : Bytes} {size : UInt32} (hsize : size.toNat ≤ data.length) :
    ∃ (result : Int) (t : σ) (ts : List Transaction),
      Program.Runs h (fcdBlFlashWrite host (some dev) data size) s result t
        (ts.flatMap Transaction.events) ∧
      Progress data size (view s) (view t) result (acknowledgedBlocks ts) := by
  have hrange := Boot.range_view a s dev
  rcases sweep_stops_or_sane h s host dev size (writeBody dev data) with
    ⟨result, hrun, hcode, -⟩ | ⟨start, stop, hx, hs⟩
  · rw [← fcdBlFlashWrite_eq, ← List.append_nil (Exchange.events _ _)] at hrun
    exact ⟨_, _, [⟨rangeRequest dev, _⟩], hrun, .untouched (by omega) (by rw [hrange])⟩
  · obtain ⟨hstart, hstop⟩ := Boot.rangeIn_eq a hx
    have hrun := fcdBlFlashWrite_sane h s host dev hsize hx hs
    rw [hstart, hstop, ← hrange] at hs hrun
    have hprogress := perform_progress a _ dev hsize hs
      ⟨rangeRequest dev, (converse h (rangeRequest dev) s).1⟩ rfl
    rw [hrange] at hprogress hrun
    exact ⟨_, _, ⟨rangeRequest dev, _⟩ :: _, hrun, hprogress⟩

/-- A write that stopped at block `k`: the blocks before it are the image's, it is
either old or the image's, and the ones behind it are old. -/
structure Interrupted (b b' : Boot) (data : Bytes) (k : Nat) : Prop where
  count : k < blockCount b.start b.stop
  before : b'.flash.Holds data b.start.toNat (b.start.toNat + 48 * k)
  block : (∀ x, b.start.toNat + 48 * k ≤ x → x < b.start.toNat + 48 * (k + 1) →
      b'.flash x = b.flash x) ∨
    b'.flash.Holds data (b.start.toNat + 48 * k) (b.start.toNat + 48 * (k + 1))
  after : ∀ x, b.start.toNat + 48 * (k + 1) ≤ x → b'.flash x = b.flash x

theorem interrupted_of_written {b b' : Boot} {data : Bytes} {k : Nat}
    (hk : k < blockCount b.start b.stop) (hreg : Regular b.start b.stop)
    (hfit : b.stop.toNat ≤ data.length) (hb : b' = written b data k ∨ b' = written b data (k + 1)) :
    Interrupted b b' data k := by
  have hend := hreg.mul_blockCount
  rcases hb with rfl | rfl
  · exact ⟨hk, written_holds b data (by omega),
      .inl (fun x hx _ => written_outside b data (.inr hx)),
      fun x hx => written_outside b data (.inr (by omega))⟩
  · have hholds := written_holds b data (k := k + 1) (by omega)
    obtain ⟨hbefore, hblock⟩ := ((written b data (k + 1)).flash.holds_split data
      (b := b.start.toNat + 48 * k) (by omega) (by omega)).mp hholds
    exact ⟨hk, hbefore, .inr hblock, fun x hx => written_outside b data (.inr hx)⟩

/-- After a complete write a verification of any image tells whether it agrees
with the one that was written. -/
theorem verify_written (a : Attached (Boot.serve wipe) h view) {b : Boot} {s : σ} (host : Endian)
    (dev : Fcd) {data data' : Bytes} {size' : UInt32} (hreg : Regular b.start b.stop)
    (hview : view s = written b data (blockCount b.start b.stop))
    (hmatch : (view s).Matches data) (hsize : data'.length = size'.toNat)
    (hstop : b.stop.toNat ≤ size'.toNat) :
    ∃ (result : Int) (t : σ) (ts : List Transaction),
      Program.Runs h (fcdBlFlashVerify host (some dev) data' size') s result t
        (ts.flatMap Transaction.events) ∧
      ((∀ x ∈ ts, x.succeeded = true) → (result = 0 ↔
        data'.extract b.start.toNat b.stop.toNat = data.extract b.start.toNat b.stop.toNat)) := by
  have hs : Sane (view s).start (view s).stop size' := by
    rw [hview]
    exact ⟨hreg, hstop⟩
  obtain ⟨result, t, ts, hrun, -, hd⟩ := verify_runs a s host dev (Nat.le_of_eq hsize.symm) hs
  refine ⟨result, t, ts, hrun, fun hall => ?_⟩
  have hiff := Boot.matches_iff hs (Nat.le_of_eq hsize.symm)
  have hagree : (view s).Matches data' ↔
      data'.extract b.start.toNat b.stop.toNat = data.extract b.start.toNat b.stop.toNat := by
    unfold Boot.Matches at hmatch ⊢
    rw [hmatch, hview]
    exact eq_comm
  rw [← hagree, hiff]
  rcases hd.faultless hall with rfl | rfl
  · exact iff_of_true rfl (hd.zero rfl)
  · exact iff_of_false (by decide) (hd.one rfl)

/-- Whatever becomes of a write, it keeps to the range. -/
theorem Progress.outside {data : Bytes} {size : UInt32} {b b' : Boot} {result : Int} {k : Nat}
    (hp : Progress data size b b' result k) {x : Nat}
    (hx : x < b.start.toNat ∨ b.stop.toNat ≤ x) : b'.flash x = b.flash x := by
  cases hp with
  | untouched hr hb => rw [hb]
  | complete hr hs hb =>
    have := hs.1.mul_blockCount
    rw [hb, written_outside b data (by omega)]
  | interrupted hr hs hk hb =>
    have := hs.1.mul_blockCount
    rcases hb with rfl | rfl
    · exact written_outside b data (by omega)
    · exact written_outside b data (by omega)

/-- What a write does to the flash, complete or interrupted. -/
theorem fcdBlFlashWrite_effect (a : Attached (Boot.serve wipe) h view) (s : σ) (host : Endian)
    (dev : Fcd) (data : Bytes) (size : UInt32) (hsize : data.length = size.toNat) :
    ∃ (result : Int) (t : σ) (ts : List Transaction),
      Program.Runs h (fcdBlFlashWrite host (some dev) data size) s result t
        (ts.flatMap Transaction.events) ∧
      (result = 0 → (view t).Matches data ∧
        (view t).start = (view s).start ∧ (view t).stop = (view s).stop ∧
        ∀ (data' : Bytes) (size' : UInt32), data'.length = size'.toNat →
          (view s).stop.toNat ≤ size'.toNat →
          ∃ (result' : Int) (u : σ) (us : List Transaction),
            Program.Runs h (fcdBlFlashVerify host (some dev) data' size') t result' u
              (us.flatMap Transaction.events) ∧
            ((∀ x ∈ us, x.succeeded = true) → (result' = 0 ↔
              data'.extract (view s).start.toNat (view s).stop.toNat =
                data.extract (view s).start.toNat (view s).stop.toNat))) ∧
      (result = -5 → Interrupted (view s) (view t) data (acknowledgedBlocks ts)) ∧
      (-4 ≤ result ∧ result ≤ -1 → (view t).flash = (view s).flash) ∧
      (-5 ≤ result ∧ result ≤ 0) ∧
      ∀ x, x < (view s).start.toNat ∨ (view s).stop.toNat ≤ x →
        (view t).flash x = (view s).flash x := by
  obtain ⟨result, t, ts, hrun, hp⟩ := write_progress a s host dev (Nat.le_of_eq hsize.symm)
  refine ⟨result, t, ts, hrun, ?_, ?_, ?_, ?_, fun x hx => hp.outside hx⟩
  · rintro rfl
    cases hp with
    | untouched hr hb => omega
    | interrupted hr hs hk hb => omega
    | complete hr hs hb =>
      have hmatch : (view t).Matches data := by
        rw [hb]
        exact written_matches (view s) hs (Nat.le_of_eq hsize.symm)
      refine ⟨hmatch, by rw [hb]; rfl, by rw [hb]; rfl, fun data' size' hsize' hstop => ?_⟩
      exact verify_written a host dev hs.1 hb hmatch hsize' hstop
  · rintro rfl
    cases hp with
    | untouched hr hb => omega
    | complete hr hs hb => omega
    | interrupted hr hs hk hb =>
      exact interrupted_of_written hk hs.1 (Nat.le_trans hs.2 (Nat.le_of_eq hsize.symm)) hb
  · intro hr
    cases hp with
    | untouched hr hb => exact hb
    | complete hr hs hb => omega
    | interrupted hr hs hk hb => omega
  · cases hp with
    | untouched hr hb => omega
    | complete hr hs hb => omega
    | interrupted hr hs hk hb => omega

end

/-- A write whose only block is stored, but whose acknowledgement is lost. -/
theorem fcdBlFlashWrite_effect_one_block :
    let h := Link.host (Boot.serve id)
    let data : Bytes := List.replicate 48 7
    ∃ (t : Link Boot) (ts : List Transaction),
      Program.Runs h (fcdBlFlashWrite .little (some ⟨0, "dongle", 1⟩) data 48)
        ⟨oneBlock, [], List.replicate 8 none ++ [some true]⟩ (-5) t
        (ts.flatMap Transaction.events) ∧
      Interrupted oneBlock t.device data (acknowledgedBlocks ts) ∧
      ¬ oneBlock.Matches data ∧ t.device.Matches data := by
  intro h data
  obtain ⟨result, t, ts, hrun, -, h5, -⟩ := fcdBlFlashWrite_effect
    (Link.attached (Boot.serve id)) ⟨oneBlock, [], List.replicate 8 none ++ [some true]⟩ .little
    ⟨0, "dongle", 1⟩ data 48 (by decide)
  have hended : (Program.run h (fcdBlFlashWrite .little (some ⟨0, "dongle", 1⟩) data 48)
      ⟨oneBlock, [], List.replicate 8 none ++ [some true]⟩).map
        (fun x => (x.1, decide (x.2.device.Matches data))) = some (-5, true) := by decide +kernel
  rw [hrun.run] at hended
  simp only [Option.map_some, Option.some.injEq, Prod.mk.injEq, decide_eq_true_eq] at hended
  obtain ⟨rfl, hmatches⟩ := hended
  exact ⟨t, ts, hrun, h5 rfl, by decide +kernel, hmatches⟩

end Libfcd.Proofs
