import Libfcd.Devices.Bootloader

namespace Libfcd.Proofs
open Interaction Memory Model Devices

variable {σ : Type}

/-- One round of the verifying loop. -/
def verifyBody (dev : Fcd) (data : Bytes) (addr : UInt32) : Hid (Option Int) := do
  match ← fcdBlReadBlock (some dev) (some (Buffer.fresh 48)) with
  | (.error _, _) => pure (some (-6))
  | (.ok (), buffer) => do
    let buffer ← .expect (buffer.bind Buffer.written)
    let image ← .expect ((Buffer.slice ((pointer data addr).map some) 0 48).bind Buffer.written)
    if memcmp buffer image ≠ 0 then pure (some 1)
    else pure none

theorem fcdBlFlashVerify_eq (host : Endian) (dev : Fcd) (data : Bytes) (size : UInt32) :
    fcdBlFlashVerify host (some dev) data size =
      sweep host (some dev) size (verifyBody dev data) := rfl

/-- How a round ends: with a failed read, or by what the block that was read
says of the image. -/
def compared (data : Bytes) (addr : UInt32) : Except Errno Bytes → Option Int
  | .error _ => some (-6)
  | .ok bytes => if bytes = data.extract addr.toNat (addr.toNat + 48) then none else some 1

theorem verifyBody_runs (h : Host σ) (s : σ) (dev : Fcd) (data : Bytes) (addr : UInt32)
    (hfit : addr.toNat + 48 ≤ data.length) :
    let q := readRequest dev
    Program.Runs h (verifyBody dev data addr) s (compared data addr ((converse h q s).1.outcome q))
      (converse h q s).2 ((converse h q s).1.events q) := by
  intro q
  have hq : readRequest dev = q := rfl
  have hread := fcdBlReadBlock_spec h s dev
  rw [hq] at hread
  have hslice : (Buffer.slice ((pointer data addr).map some) 0 48).bind Buffer.written =
      some (data.extract addr.toNat (addr.toNat + 48)) := by
    rw [Buffer.slice_eq (by simp [pointer]; omega), List.drop_zero, ← List.map_take]
    simp only [Option.bind_some, Buffer.written_map_some, pointer, List.extract_eq_take_drop,
      Nat.add_sub_cancel_left]
  cases ho : (converse h q s).1.outcome q with
  | error e =>
    simp only [ho] at hread
    exact hread.bind_done rfl
  | ok bytes =>
    simp only [ho] at hread
    apply hread.bind_done
    have hlen : bytes.length = (data.extract addr.toNat (addr.toNat + 48)).length := by
      have : bytes.length = 48 := outcome_length ho
      simp
      omega
    simp only [Option.bind_some, Buffer.written_map_some, Program.expect_some, Program.done_bind,
      hslice, compared, ne_eq, memcmp_eq_zero hlen]
    split <;> simp_all

/-- What the rounds from `a` to `b` establish about a flash and an image. -/
structure Verified (m : Plane UInt8) (data : Bytes) (a b : Nat) (left : Option Int)
    (ts : List Transaction) : Prop where
  same : left = none → m.Holds data a b
  differ : left = some 1 → ¬ m.Holds data a b
  codes : left = none ∨ left = some 1 ∨ left = some (-6)
  faultless : (∀ t ∈ ts, t.succeeded = true) → left ≠ some (-6)

section
variable {wipe : Plane UInt8 → Plane UInt8} {h : Host σ} {view : σ → Boot}

/-- Reading moves the pointer at most. -/
theorem read_view (a : Attached (Boot.serve wipe) h view) (s : σ) (dev : Fcd) :
    (view (converse h (readRequest dev) s).2).flash = (view s).flash := by
  rcases a.converse (readRequest dev) s with hv | hv
  · rw [hv]
  · rw [hv, Boot.serve_read]

/-- A block that was read is the block at the pointer, which moves on. -/
theorem read_ok (a : Attached (Boot.serve wipe) h view) {s : σ} {dev : Fcd} {bytes : Bytes}
    (ho : (converse h (readRequest dev) s).1.outcome (readRequest dev) = .ok bytes) :
    bytes = (view s).flash.window (view s).pointer 48 ∧
      (view (converse h (readRequest dev) s).2).pointer = (view s).pointer + 48 := by
  obtain ⟨hview, data, hdata, rfl⟩ := a.honest _ s bytes ho
  rw [Boot.serve_read] at hview hdata
  obtain rfl := Option.some.inj hdata
  refine ⟨?_, by rw [hview]⟩
  rw [List.takeD_eq_take _ (by simp [readRequest]), List.take_of_length_le]
  simp [readRequest]

/-- While the pointer of the dongle is where the loop is, the rounds compare the
flash with the image block by block. -/
theorem verify_scan (a : Attached (Boot.serve wipe) h view) (dev : Fcd) (data : Bytes)
    (start : UInt32) {n : Nat} (hfit : start.toNat + 48 * n ≤ data.length)
    (hlt : start.toNat + 48 * n < 2 ^ 32) {s : σ} (hp : (view s).pointer = start.toNat) :
    ∃ left t ts, Program.Runs h (Program.scan (verifyBody dev data) (addresses start n)) s left t
        (ts.flatMap Transaction.events) ∧
      (view t).flash = (view s).flash ∧
      Verified (view s).flash data start.toNat (start.toNat + 48 * n) left ts := by
  induction n generalizing start s with
  | zero =>
    refine ⟨none, s, [], Program.Runs.done h none s, rfl, ?_, by simp, by simp, by simp⟩
    intro _ x hx hlt
    omega
  | succ n ih =>
    have hround := verifyBody_runs h s dev data start (by omega)
    have hflash := read_view a s dev
    have hnext : start.toNat + 48 + 48 * n = start.toNat + 48 * (n + 1) := by omega
    have hsplit := (view s).flash.holds_split data (Nat.le_add_right start.toNat 48)
      (Nat.le_add_right (start.toNat + 48) (48 * n))
    rw [hnext] at hsplit
    have hblock := (view s).flash.holds_iff_window data (Nat.le_add_right start.toNat 48)
      (by omega)
    rw [Nat.add_sub_cancel_left] at hblock
    cases ho : (converse h (readRequest dev) s).1.outcome (readRequest dev) with
    | error e =>
      simp only [ho, compared] at hround
      have hleave := hround.scan_leave (addresses (start + 48) n)
      rw [← List.append_nil (Exchange.events _ _)] at hleave
      refine ⟨_, _, [⟨readRequest dev, _⟩], hleave, hflash, by simp, by simp, by simp, ?_⟩
      intro hall
      obtain ⟨bytes, hok⟩ := succeeded_iff.mp (hall _ (List.mem_singleton.mpr rfl))
      rw [ho] at hok
      cases hok
    | ok bytes =>
      obtain ⟨hbytes, hpointer⟩ := read_ok a ho
      rw [hp] at hbytes hpointer
      simp only [ho, compared, hbytes] at hround
      by_cases heq : (view s).flash.window start.toNat 48 =
          data.extract start.toNat (start.toNat + 48)
      · rw [if_pos heq] at hround
        have hadd := toNat_add_48 start (by omega)
        obtain ⟨left, t, ts, hrun, hsame, hv⟩ := ih (start + 48)
          (s := (converse h (readRequest dev) s).2) (by omega) (by omega) (by omega)
        rw [hflash, hadd, hnext] at hv
        refine ⟨left, t, ⟨readRequest dev, _⟩ :: ts, hround.scan_next hrun, hsame.trans hflash,
          ?_, ?_, hv.codes, ?_⟩
        · intro hl
          exact hsplit.mpr ⟨hblock.mpr heq, hv.same hl⟩
        · intro hl hh
          exact hv.differ hl (hsplit.mp hh).2
        · intro hall
          exact hv.faultless (fun t ht => hall t (by simp [ht]))
      · rw [if_neg heq] at hround
        have hleave := hround.scan_leave (addresses (start + 48) n)
        rw [← List.append_nil (Exchange.events _ _)] at hleave
        refine ⟨_, _, [⟨readRequest dev, _⟩], hleave, hflash, by simp, ?_, by simp, by simp⟩
        intro _ hh
        exact heq (hblock.mp (hsplit.mp hh).1)

/-- What a whole verification establishes. -/
structure Decides (b : Boot) (data : Bytes) (result : Int) (ts : List Transaction) : Prop where
  zero : result = 0 → b.flash.Holds data b.start.toNat b.stop.toNat
  one : result = 1 → ¬ b.flash.Holds data b.start.toNat b.stop.toNat
  faultless : (∀ t ∈ ts, t.succeeded = true) → result = 0 ∨ result = 1

theorem Verified.decides {b : Boot} {data : Bytes} {left : Option Int} {ts : List Transaction}
    (hv : Verified b.flash data b.start.toNat b.stop.toNat left ts) (us : List Transaction) :
    Decides b data (left.getD 0) (us ++ ts) := by
  have hcodes := hv.codes
  refine ⟨fun h0 => hv.same ?_, fun h1 => hv.differ ?_, fun hall => ?_⟩
  · rcases hcodes with rfl | rfl | rfl <;> simp_all
  · rcases hcodes with rfl | rfl | rfl <;> simp_all
  · have := hv.faultless (fun t ht => hall t (by simp [ht]))
    rcases hcodes with rfl | rfl | rfl <;> simp_all

/-- An early end, with a transaction that failed. -/
theorem decides_of_failed {b : Boot} (data : Bytes) {result : Int} {ts : List Transaction}
    {t : Transaction} (hr : result < 0) (ht : t ∈ ts) (hf : t.succeeded = false) :
    Decides b data result ts := by
  refine ⟨by omega, by omega, fun hall => ?_⟩
  rw [hall t ht] at hf
  cases hf

theorem verify_runs (a : Attached (Boot.serve wipe) h view) (s : σ) (host : Endian) (dev : Fcd)
    {data : Bytes} {size : UInt32} (hsize : size.toNat ≤ data.length)
    (hs : Sane (view s).start (view s).stop size) :
    ∃ result t ts, Program.Runs h (fcdBlFlashVerify host (some dev) data size) s result t
        (ts.flatMap Transaction.events) ∧
      (view t).flash = (view s).flash ∧ Decides (view s) data result ts := by
  rw [fcdBlFlashVerify_eq]
  have hrange := Boot.range_view a s dev
  cases hx : rangeIn dev (converse h (rangeRequest dev) s).1 with
  | none =>
    have hrun := sweep_no_range h s host dev size (verifyBody dev data) hx
    rw [← List.append_nil (Exchange.events _ _)] at hrun
    refine ⟨_, _, [⟨rangeRequest dev, _⟩], hrun, by rw [hrange],
      decides_of_failed data (by decide) (List.mem_singleton.mpr rfl) (rangeIn_eq_none.mp hx)⟩
  | some range =>
    obtain ⟨start, stop⟩ := range
    obtain ⟨hstart, hstop⟩ := Boot.rangeIn_eq a hx
    rw [← hstart, ← hstop] at hs
    generalize ht : (converse h (rangeRequest dev) s).2 = t at hrange
    have haddress := Boot.address_flash a t dev start
    rw [hrange] at haddress
    cases hq : (⟨addressRequest dev start, (converse h (addressRequest dev start) t).1⟩ :
        Transaction).succeeded with
    | false =>
      have hrun := sweep_no_address h s host dev size (verifyBody dev data) hx hs rfl ht.symm hq
      rw [← List.append_nil (Exchange.events (addressRequest dev start) _)] at hrun
      exact ⟨_, _, [⟨rangeRequest dev, _⟩, ⟨addressRequest dev start, _⟩], hrun, haddress,
        decides_of_failed data (by decide) (by simp) hq⟩
    | true =>
      have hview := a.view_of_succeeded hq
      rw [Boot.serve_address] at hview
      have hcount := hs.1.mul_blockCount
      obtain ⟨left, u, ts, hscan, hsame, hv⟩ := verify_scan a dev data start
        (n := blockCount start stop) (s := (converse h (addressRequest dev start) t).2)
        (by have := hs.2; omega) (by have := stop.toNat_lt; omega) (by rw [hview])
      have hrun := sweep_through h s host dev size (verifyBody dev data) hx hs rfl ht.symm hq hscan
      rw [hcount, haddress, hstart, hstop] at hv
      exact ⟨_, _, [⟨rangeRequest dev, _⟩, ⟨addressRequest dev start, _⟩] ++ ts, hrun,
        hsame.trans haddress, hv.decides _⟩

/-- A verification decides whether flash and image are equal, and changes neither. -/
theorem fcdBlFlashVerify_decides (a : Attached (Boot.serve wipe) h view) (s : σ) (host : Endian)
    (dev : Fcd) (data : Bytes) (size : UInt32) (hsize : data.length = size.toNat)
    (hs : Sane (view s).start (view s).stop size) :
    ∃ (result : Int) (t : σ) (ts : List Transaction),
      Program.Runs h (fcdBlFlashVerify host (some dev) data size) s result t
        (ts.flatMap Transaction.events) ∧
      (result = 0 → (view s).Matches data) ∧
      (result = 1 → ¬ (view s).Matches data) ∧
      ((∀ x ∈ ts, x.succeeded = true) →
        (result = 0 ↔ (view s).Matches data) ∧ (result = 1 ↔ ¬ (view s).Matches data)) ∧
      (view t).flash = (view s).flash := by
  obtain ⟨result, t, ts, hrun, hflash, hd⟩ := verify_runs a s host dev (Nat.le_of_eq hsize.symm) hs
  rw [Boot.matches_iff hs (Nat.le_of_eq hsize.symm)]
  refine ⟨result, t, ts, hrun, hd.zero, hd.one, fun hall => ?_, hflash⟩
  rcases hd.faultless hall with rfl | rfl
  · exact ⟨iff_of_true rfl (hd.zero rfl), iff_of_false (by decide) (not_not.mpr (hd.zero rfl))⟩
  · exact ⟨iff_of_false (by decide) (hd.one rfl), iff_of_true rfl (hd.one rfl)⟩

end

/-- The flash differs from the image. With all exchanges well that is the result, and with
the answer to the request for the block lost it is an error. -/
theorem fcdBlFlashVerify_decides_one_block :
    let h := Link.host (Boot.serve id)
    let data : Bytes := List.replicate 48 7
    let verify := fcdBlFlashVerify .little (some ⟨0, "dongle", 1⟩) data 48
    let lossy : Link Boot := ⟨oneBlock, [], List.replicate 8 none ++ [some true]⟩
    ∃ (t u : Link Boot) (ts us : List Transaction),
      Program.Runs h verify ⟨oneBlock, [], []⟩ 1 t (ts.flatMap Transaction.events) ∧
      ¬ oneBlock.Matches data ∧ t.device.flash = oneBlock.flash ∧
      Program.Runs h verify lossy (-6) u (us.flatMap Transaction.events) ∧
      u.device.flash = oneBlock.flash ∧ u.device.pointer = 48 := by
  intro h data verify lossy
  obtain ⟨result, t, ts, hrun, -, hone, -, hflash⟩ := fcdBlFlashVerify_decides
    (Link.attached (Boot.serve id)) ⟨oneBlock, [], []⟩ .little ⟨0, "dongle", 1⟩ data 48 (by decide)
    (by decide)
  obtain ⟨result', u, us, hrun', -, -, -, hflash'⟩ := fcdBlFlashVerify_decides
    (Link.attached (Boot.serve id)) lossy .little ⟨0, "dongle", 1⟩ data 48 (by decide) (by decide)
  have hended : (Program.run h verify ⟨oneBlock, [], []⟩).map (·.1) = some 1 := by decide +kernel
  have hended' : (Program.run h verify lossy).map (fun x => (x.1, x.2.device.pointer)) =
      some (-6, 48) := by decide +kernel
  rw [hrun.run] at hended
  rw [hrun'.run] at hended'
  obtain rfl : result = 1 := Option.some.inj hended
  obtain ⟨rfl, hpointer⟩ := Prod.mk.inj (Option.some.inj hended')
  exact ⟨t, u, ts, us, hrun, hone rfl, hflash, hrun', hflash', hpointer⟩

end Libfcd.Proofs
