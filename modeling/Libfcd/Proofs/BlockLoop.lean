import Libfcd.Proofs.Codes

namespace Libfcd.Proofs
open Interaction Memory Model Devices

variable {σ : Type}

/-- The loop over the blocks of a range that passed its check. -/
def blockLoop (start stop : UInt32) (h : ¬ (start ≥ stop ∨ (stop - start) % 48 ≠ 0))
    (body : UInt32 → Hid (Option Int)) : Hid (Int ⊕ UInt32) :=
  (blockHead stop).loop body (stop.toNat - start.toNat) start (aligned_of_sane h)
    (fuel_blockHead start stop)

theorem sweepRange_eq_blockLoop (host : Endian) (dev : Option Fcd) {start stop size : UInt32}
    (h : ¬ (start ≥ stop ∨ (stop - start) % 48 ≠ 0)) (hsize : ¬ stop > size)
    (body : UInt32 → Hid (Option Int)) :
    sweepRange host dev size body (.ok (start, stop)) = fcdBlSetAddress host dev start >>= fun
      | .error _ => .done (-4)
      | .ok () => blockLoop start stop h body >>= fun left =>
        .done (left.elim id (fun _ => 0)) := by
  rw [sweepRange, dif_neg h, if_neg hsize]
  refine congrArg (fcdBlSetAddress host dev start >>= ·) (funext fun status => ?_)
  cases status with
  | error e => rfl
  | ok u =>
    refine congrArg (blockLoop start stop h body >>= ·) (funext fun left => ?_)
    cases left <;> rfl

/-- The counter that ends the loop is the end of the range itself. -/
theorem last_eq {addr stop : UInt32} {n : Nat} (h : Aligned addr stop)
    (hn : stop.toNat - addr.toNat ≤ n) : (blockHead stop).last n addr = stop := by
  induction n generalizing addr with
  | zero =>
    have := h.le
    exact UInt32.toNat_inj.mp (by simp only [LoopHead.last]; omega)
  | succ n ih =>
    by_cases ht : addr < stop
    · obtain ⟨hadd, hnext⟩ := h.next ht
      have hlt := UInt32.lt_iff_toNat_lt.mp ht
      have htest : (blockHead stop).test addr = true := decide_eq_true ht
      simp only [LoopHead.last, htest, if_true]
      exact ih hnext (by simp only [blockHead]; omega)
    · have htest : (blockHead stop).test addr = false := decide_eq_false ht
      have hle := UInt32.le_iff_toNat_le.mp (UInt32.not_lt.mp ht)
      have := h.le
      simp only [LoopHead.last, htest, Bool.false_eq_true, if_false]
      exact UInt32.toNat_inj.mp (by omega)

theorem blockCount_eq {start stop : UInt32} (h : Regular start stop) :
    blockCount start stop = ((stop - start) / 48).toNat := by
  have hle := UInt32.le_iff_toNat_le.mpr (Nat.le_of_lt h.1)
  rw [UInt32.toNat_div, UInt32.toNat_sub_of_le _ _ hle]
  rfl

/-- The counters of a loop over flash, from the start of the range to its end. -/
structure Strides (start stop size : UInt32) (visits : List UInt32) (last : UInt32) : Prop where
  some_block : 1 ≤ ((stop - start) / 48).toNat
  count : visits.length = ((stop - start) / 48).toNat
  place : ∀ k addr, visits[k]? = some addr → addr.toNat = start.toNat + 48 * k
  /-- No step wraps. -/
  step : ∀ addr ∈ visits, (addr + 48).toNat = addr.toNat + 48
  inside : ∀ addr ∈ visits, addr.toNat + 48 ≤ size.toNat
  last_eq : last = stop

theorem strides_of_checks {start stop size : UInt32}
    (h : ¬ (start ≥ stop ∨ (stop - start) % 48 ≠ 0)) (hsize : ¬ stop > size) :
    Strides start stop size ((blockHead stop).visits (stop.toNat - start.toNat) start)
      ((blockHead stop).last (stop.toNat - start.toNat) start) := by
  have hreg := regular_iff.mpr h
  have hend := hreg.mul_blockCount
  have hlt := stop.toNat_lt
  have hstop := UInt32.le_iff_toNat_le.mp (UInt32.not_lt.mp hsize)
  rw [visits_eq (aligned_of_sane h) (Nat.le_refl _), last_eq (aligned_of_sane h) (Nat.le_refl _)]
  have hinside : ∀ addr ∈ addresses start (blockCount start stop),
      addr.toNat + 48 ≤ stop.toNat :=
    fun addr ha => le_of_mem_addresses (Nat.le_of_eq hend) hlt ha
  refine ⟨?_, ?_, fun k addr ha => ?_, fun addr ha => ?_, fun addr ha => ?_, rfl⟩
  · have := hreg.1
    rw [← blockCount_eq hreg]
    omega
  · rw [length_addresses, blockCount_eq hreg]
  · exact (toNat_of_getElem?_addresses (by omega) ha).2
  · have := hinside addr ha
    exact toNat_add_48 addr (by omega)
  · exact Nat.le_trans (hinside addr ha) hstop

theorem Rounds.length {req : Nat → Request} {judge : Nat → Exchange → Option Int} {n : Nat}
    {left : Option Int} {ts : List Transaction} (h : Rounds req judge n left ts) :
    ts.length ≤ n ∧ (left = none → ts.length = n) := by
  cases h with
  | through ts hlen hw => exact ⟨Nat.le_of_eq hlen, fun _ => hlen⟩
  | left ts x r hlen hw hr =>
    rw [List.length_append]
    exact ⟨hlen, fun hc => nomatch hc⟩

/-- A read that succeeds leaves nothing of the block unwritten. -/
theorem fcdBlReadBlock_fills (h : Host σ) (s : σ) (dev : Fcd) :
    ∃ status buffer t es, Program.Runs h (fcdBlReadBlock (some dev) (some (Buffer.fresh 48))) s
        (status, some buffer) t es ∧
      (status = .ok () → ∃ bytes, Buffer.written buffer = some bytes ∧ bytes.length = 48) := by
  have hread := fcdBlReadBlock_spec h s dev
  cases ho : (converse h (readRequest dev) s).1.outcome (readRequest dev) with
  | error e =>
    simp only [ho] at hread
    exact ⟨_, _, _, _, hread, fun hc => nomatch hc⟩
  | ok bytes =>
    simp only [ho] at hread
    exact ⟨_, _, _, _, hread, fun _ => ⟨bytes, Buffer.written_map_some bytes, outcome_length ho⟩⟩

/-- The run of a loop over flash with the calls of `ts`, inside a run of the
function `p` it belongs to. If nothing is in its way, `smooth`, it goes through
all blocks and stops at the end of the range. -/
structure LoopRuns (h : Host σ) (dev : Fcd) (s : σ) (start stop : UInt32)
    (loop : Hid (Int ⊕ UInt32)) (p : Hid Int) (smooth : List Transaction → Prop)
    (left : Int ⊕ UInt32) (t : σ) (ts : List Transaction) : Prop where
  loop_runs : Program.Runs h loop (addressing h dev s start).2 left t
    (ts.flatMap Transaction.events)
  function_runs : Program.Runs h p s (left.elim id (fun _ => 0)) t
    ((ranging h dev s).1.events (rangeRequest dev) ++
      ((addressing h dev s start).1.events (addressRequest dev start) ++
        ts.flatMap Transaction.events))
  rounds_le : ts.length ≤ ((stop - start) / 48).toNat
  through : smooth ts → ts.length = ((stop - start) / 48).toNat ∧ left = .inr stop

section
variable {h : Host σ} {s : σ} {dev : Fcd} {size start stop : UInt32}

theorem loopRuns_of_rounds (host : Endian) {body : UInt32 → Hid (Option Int)}
    {req : Nat → Request} {judge : Nat → Exchange → Option Int}
    {smooth : List Transaction → Prop}
    (hx : rangeIn dev (ranging h dev s).1 = some (start, stop))
    (hcheck : ¬ (start ≥ stop ∨ (stop - start) % 48 ≠ 0)) (hsize : ¬ stop > size)
    (hy : (⟨addressRequest dev start, (addressing h dev s start).1⟩ :
      Transaction).succeeded = true)
    (hsmooth : ∀ ts, smooth ts → ∀ k t r, ts[k]? = some t → t.request = req k →
      judge k t.exchange ≠ some r)
    {left : Option Int} {t : σ} {ts : List Transaction}
    (hscan : Program.Runs h (Program.scan body (addresses start (blockCount start stop)))
      (addressing h dev s start).2 left t (ts.flatMap Transaction.events))
    (hrounds : Rounds req judge (blockCount start stop) left ts) :
    LoopRuns h dev s start stop (blockLoop start stop hcheck body)
      (sweep host (some dev) size body) smooth (left.elim (.inr stop) .inl) t ts := by
  have hreg := regular_iff.mpr hcheck
  have hstop := UInt32.le_iff_toNat_le.mp (UInt32.not_lt.mp hsize)
  obtain ⟨hle, hnone⟩ := hrounds.length
  rw [← visits_eq (aligned_of_sane hcheck) (Nat.le_refl _)] at hscan
  have hloop := (blockHead stop).loop_runs (aligned_of_sane hcheck) (fuel_blockHead start stop)
    hscan
  rw [last_eq (aligned_of_sane hcheck) (Nat.le_refl _)] at hloop
  refine ⟨hloop, ?_, by rwa [← blockCount_eq hreg], fun hs => ?_⟩
  · have hset := fcdBlSetAddress_spec h (ranging h dev s).2 host dev start
    have hok : (addressing h dev s start).1.status (addressRequest dev start) = .ok () :=
      status_of_succeeded hy
    rw [addressing] at hok
    simp only [hok] at hset
    apply sweep_range h s host dev size body hx
    rw [sweepRange_eq_blockLoop host (some dev) hcheck hsize]
    exact hset.bind (hloop.bind_done rfl)
  · cases left with
    | none => exact ⟨(hnone rfl).trans (blockCount_eq hreg), rfl⟩
    | some r =>
      obtain ⟨k, u, hu, hjudge⟩ := hrounds.left_iff.mp rfl
      exact absurd hjudge (hsmooth ts hs k u r hu (hrounds.request hu))

end

/-- No exchange of a loop fails. -/
def Faultless (ts : List Transaction) : Prop := ∀ t ∈ ts, t.succeeded = true

instance (ts : List Transaction) : Decidable (Faultless ts) :=
  inferInstanceAs (Decidable (∀ t ∈ ts, t.succeeded = true))

/-- The blocks read are those of the image. -/
def AllSame (data : Bytes) (start : UInt32) (ts : List Transaction) : Prop :=
  ∀ k t bytes, ts[k]? = some t → t.exchange.outcome t.request = .ok bytes →
    bytes = imageBlock data start k

/-- Whatever range a dongle reports and whatever it answers: a loop over flash
that is entered keeps to the range and to the image, and ends at its end. -/
theorem blockLoops_safe (h : Host σ) (s : σ) (host : Endian) (dev : Fcd) (data : Bytes)
    (start stop size : UInt32) (hdata : data.length = size.toNat)
    (hx : rangeIn dev (ranging h dev s).1 = some (start, stop))
    (hcheck : ¬ (start ≥ stop ∨ (stop - start) % 48 ≠ 0)) (hsize : ¬ stop > size) :
    Strides start stop size ((blockHead stop).visits (stop.toNat - start.toNat) start)
      ((blockHead stop).last (stop.toNat - start.toNat) start) ∧
    ((⟨addressRequest dev start, (addressing h dev s start).1⟩ : Transaction).succeeded = true →
      (∃ left t ts, LoopRuns h dev s start stop (blockLoop start stop hcheck (writeBody dev data))
        (fcdBlFlashWrite host (some dev) data size) Faultless left t ts) ∧
      (∃ left t ts, LoopRuns h dev s start stop (blockLoop start stop hcheck (verifyBody dev data))
        (fcdBlFlashVerify host (some dev) data size)
        (fun ts => Faultless ts ∧ AllSame data start ts) left t ts)) ∧
    ∀ s, ∃ status buffer t es,
      Program.Runs h (fcdBlReadBlock (some dev) (some (Buffer.fresh 48))) s (status, some buffer) t
        es ∧
      (status = .ok () → ∃ bytes, Buffer.written buffer = some bytes ∧ bytes.length = 48) := by
  have hreg := regular_iff.mpr hcheck
  have hfit : stop.toNat ≤ data.length := by
    rw [hdata]
    exact UInt32.le_iff_toNat_le.mp (UInt32.not_lt.mp hsize)
  refine ⟨strides_of_checks hcheck hsize, fun hy => ⟨?_, ?_⟩,
    fun s => fcdBlReadBlock_fills h s dev⟩
  · obtain ⟨left, t, ts, hscan, hrounds⟩ := write_rounds h _ dev hreg hfit
    refine ⟨_, t, ts, loopRuns_of_rounds host hx hcheck hsize hy ?_ hscan hrounds⟩
    intro us hus k u r hu hreq hjudge
    have hfailed := (judgeWrite_eq_some.mp hjudge).1
    rw [← hreq] at hfailed
    exact absurd (hus u (List.mem_of_getElem? hu)) (Bool.eq_false_iff.mp hfailed)
  · obtain ⟨left, t, ts, hscan, hrounds⟩ := verify_rounds h _ dev hreg hfit
    refine ⟨_, t, ts, loopRuns_of_rounds host hx hcheck hsize hy ?_ hscan hrounds⟩
    intro us hsmooth k u r hu hreq hjudge
    obtain ⟨hok, hsame⟩ := hsmooth
    rcases judgeRead_codes hjudge with rfl | rfl
    · have hfailed := judgeRead_eq_failed.mp hjudge
      rw [← hreq] at hfailed
      exact absurd (hok u (List.mem_of_getElem? hu)) (Bool.eq_false_iff.mp hfailed)
    · obtain ⟨bytes, ho, hne⟩ := judgeRead_eq_one.mp hjudge
      rw [← hreq] at ho
      exact hne (hsame k u bytes hu ho)

/-- A dongle with a range of two blocks that ends sixteen bytes below 2^32. -/
def topBlocks : Boot := { oneBlock with start := 4294967184, stop := 4294967280 }

theorem blockLoops_safe_two_blocks :
    let dev : Fcd := ⟨0, "dongle", 1⟩
    let data : Bytes := List.replicate 4294967280 7
    let head := blockHead 4294967280
    head.visits 96 4294967184 = [4294967184, 4294967232] ∧ head.last 96 4294967184 = 4294967280 ∧
      Strides 4294967184 4294967280 4294967280 (head.visits 96 4294967184)
        (head.last 96 4294967184) ∧
      ∃ left t ts, LoopRuns (Link.host (Boot.serve id)) dev ⟨topBlocks, [], []⟩ 4294967184
        4294967280 (blockLoop 4294967184 4294967280 (by decide) (writeBody dev data))
        (fcdBlFlashWrite .little (some dev) data 4294967280) Faultless left t ts := by
  intro dev data head
  obtain ⟨hstrides, hloops, -⟩ := blockLoops_safe (Link.host (Boot.serve id)) ⟨topBlocks, [], []⟩
    .little dev data 4294967184 4294967280 4294967280 (List.length_replicate ..) (by decide)
    (by decide) (by decide)
  exact ⟨by decide, by decide, hstrides, (hloops (by decide)).1⟩

/-- Without a fault in any exchange, the loop that verifies stops all the same at
a block that differs: after one round of two, and not at the end of the range. -/
theorem verify_stops_at_difference :
    let h := Link.host (Boot.serve id)
    let dev : Fcd := ⟨0, "dongle", 1⟩
    let s : Link Boot := ⟨{ oneBlock with stop := 96 }, [], []⟩
    let data : Bytes := List.replicate 96 7
    rangeIn dev (ranging h dev s).1 = some (0, 96) ∧ Sane 0 96 96 ∧
      ∃ left t ts, LoopRuns h dev s 0 96 (blockLoop 0 96 (by decide) (verifyBody dev data))
        (fcdBlFlashVerify .little (some dev) data 96) (fun _ => False) left t ts ∧ Faultless ts ∧
        ¬ (ts.length = (((96 : UInt32) - 0) / 48).toNat ∧ left = .inr 96) := by
  refine ⟨by decide, by decide, .inl 1, _, [⟨readRequest ⟨0, "dongle", 1⟩,
    .answered 0 2 ⟨50, 28 :: 1 :: List.replicate 48 0xff⟩⟩], ⟨⟨rfl, rfl⟩, ⟨rfl, rfl⟩, by decide,
    False.elim⟩, by decide, by decide⟩

end Libfcd.Proofs
