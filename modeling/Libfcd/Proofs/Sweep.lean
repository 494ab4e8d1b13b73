import Libfcd.Proofs.Script
import Libfcd.Memory.Blocks

namespace Libfcd.Proofs
open Interaction Memory Model

variable {σ : Type}

/-- A range that the loops over flash can walk in whole blocks. -/
def Regular (start stop : UInt32) : Prop :=
  start.toNat < stop.toNat ∧ 48 ∣ stop.toNat - start.toNat

/-- What both loops over flash check before they set an address. -/
def Sane (start stop size : UInt32) : Prop := Regular start stop ∧ stop.toNat ≤ size.toNat

instance (start stop : UInt32) : Decidable (Regular start stop) :=
  inferInstanceAs (Decidable (_ ∧ _))

instance (start stop size : UInt32) : Decidable (Sane start stop size) :=
  inferInstanceAs (Decidable (_ ∧ _))

theorem regular_iff {start stop : UInt32} :
    Regular start stop ↔ ¬ (start ≥ stop ∨ (stop - start) % 48 ≠ 0) := by
  simp only [Regular, ge_iff_le, ne_eq, not_or, not_not, UInt32.not_le, UInt32.lt_iff_toNat_lt]
  apply and_congr_right
  intro hlt
  have hsub := UInt32.toNat_sub_of_le stop start (UInt32.le_iff_toNat_le.mpr (Nat.le_of_lt hlt))
  rw [← UInt32.toNat_inj, UInt32.toNat_mod, hsub]
  exact Nat.dvd_iff_mod_eq_zero

/-- The number of blocks in a range. -/
def blockCount (start stop : UInt32) : Nat := (stop.toNat - start.toNat) / 48

theorem Regular.mul_blockCount {start stop : UInt32} (h : Regular start stop) :
    start.toNat + 48 * blockCount start stop = stop.toNat := by
  have := Nat.mul_div_cancel' h.2
  have := h.1
  simp only [blockCount]
  omega

/-- The addresses of `n` blocks in a row. -/
def addresses : UInt32 → Nat → List UInt32
  | _, 0 => []
  | addr, n + 1 => addr :: addresses (addr + 48) n

@[simp] theorem length_addresses (addr : UInt32) (n : Nat) : (addresses addr n).length = n := by
  induction n generalizing addr with
  | zero => rfl
  | succ n ih => simp [addresses, ih]

/-- The loop over flash visits the blocks of its range, one after the other. -/
theorem visits_eq {addr stop : UInt32} {n : Nat} (h : Aligned addr stop)
    (hn : stop.toNat - addr.toNat ≤ n) :
    (blockHead stop).visits n addr = addresses addr (blockCount addr stop) := by
  induction n generalizing addr with
  | zero =>
    have h0 : stop.toNat - addr.toNat = 0 := by omega
    simp [LoopHead.visits, blockCount, h0, addresses]
  | succ n ih =>
    by_cases ht : addr < stop
    · obtain ⟨hadd, hnext⟩ := h.next ht
      have hlt := UInt32.lt_iff_toNat_lt.mp ht
      have hcount : blockCount addr stop = blockCount (addr + 48) stop + 1 := by
        obtain ⟨k, hk⟩ := h.blocks
        simp only [blockCount, hadd]
        omega
      have hrest := ih hnext (by omega)
      have htest : (blockHead stop).test addr = true := decide_eq_true ht
      simp only [LoopHead.visits, htest, if_true, hcount, addresses]
      exact congrArg _ hrest
    · have hle : stop.toNat - addr.toNat = 0 := by
        have := UInt32.le_iff_toNat_le.mp (UInt32.not_lt.mp ht)
        omega
      have htest : (blockHead stop).test addr = false := decide_eq_false ht
      simp [LoopHead.visits, htest, blockCount, hle, addresses]

theorem toNat_add_48 (addr : UInt32) (h : addr.toNat + 48 < 2 ^ 32) :
    (addr + 48).toNat = addr.toNat + 48 := by
  rw [UInt32.toNat_add]
  exact Nat.mod_eq_of_lt h

/-- Every block that is visited lies before the end. -/
theorem le_of_mem_addresses {start : UInt32} {n stop : Nat} (h : start.toNat + 48 * n ≤ stop)
    (hs : stop < 2 ^ 32) {addr : UInt32} (ha : addr ∈ addresses start n) :
    addr.toNat + 48 ≤ stop := by
  induction n generalizing start with
  | zero => cases ha
  | succ n ih =>
    rcases List.mem_cons.mp ha with rfl | ha
    · omega
    · cases n with
      | zero => cases ha
      | succ n =>
        have hadd := toNat_add_48 start (by omega)
        exact ih (by omega) ha

/-- The blocks of an image at the addresses visited. -/
theorem map_addresses (data : Bytes) {start : UInt32} {n : Nat}
    (h : start.toNat + 48 * n < 2 ^ 32) :
    (addresses start n).map (fun addr => (pointer data addr).take 48) =
      blocksOf 48 data start.toNat n := by
  induction n generalizing start with
  | zero => rfl
  | succ n ih =>
    have hadd := toNat_add_48 start (by omega)
    rw [addresses, List.map_cons, ih (by omega), blocksOf_succ, hadd]
    simp [pointer]

theorem fuel_blockHead (start stop : UInt32) :
    (blockHead stop).fuel start ≤ stop.toNat - start.toNat := Nat.le_refl _

/-- What writing and verifying have in common once they have the range. -/
def sweepRange (host : Endian) (dev : Option Fcd) (size : UInt32)
    (body : UInt32 → Hid (Option Int)) : Except Errno (UInt32 × UInt32) → Hid Int
  | .error _ => pure (-1)
  | .ok (start, stop) =>
    if h : start ≥ stop ∨ (stop - start) % 48 ≠ 0 then pure (-2)
    else if stop > size then pure (-3)
    else do
      match ← fcdBlSetAddress host dev start with
      | .error _ => pure (-4)
      | .ok () => do
        let left ← (blockHead stop).loop body (stop.toNat - start.toNat) start
          (aligned_of_sane h) (fuel_blockHead start stop)
        match left with
        | .inl result => pure result
        | .inr _ => pure 0

/-- Everything but what is done at each block. -/
def sweep (host : Endian) (dev : Option Fcd) (size : UInt32)
    (body : UInt32 → Hid (Option Int)) : Hid Int :=
  fcdBlGetAddressRange host dev >>= sweepRange host dev size body

/-- The way through the blocks that are still to come. -/
def sweepBlocks (body : UInt32 → Hid (Option Int)) (addrs : List UInt32) : Hid Int :=
  Program.scan body addrs >>= fun
    | some r => .done r
    | none => .done 0

/-- The address exchange and, past it, the blocks of a range. -/
def sweepAddress (host : Endian) (dev : Option Fcd) (body : UInt32 → Hid (Option Int))
    (start stop : UInt32) : Hid Int :=
  fcdBlSetAddress host dev start >>= fun
    | .error _ => .done (-4)
    | .ok () => sweepBlocks body (addresses start (blockCount start stop))

/-- The code a range is refused with. -/
def refusal (start stop : UInt32) : Int := if Regular start stop then -3 else -2

theorem refusal_range (start stop : UInt32) :
    -3 ≤ refusal start stop ∧ refusal start stop ≤ -2 := by
  unfold refusal
  split <;> decide

section
variable (host : Endian) (dev : Option Fcd) {size start stop : UInt32}
  (body : UInt32 → Hid (Option Int))

theorem sweepRange_refused (hs : ¬ Sane start stop size) :
    sweepRange host dev size body (.ok (start, stop)) = .done (refusal start stop) := by
  by_cases hreg : Regular start stop
  · have hsize : stop > size := by
      have : ¬ stop.toNat ≤ size.toNat := fun hle => hs ⟨hreg, hle⟩
      exact UInt32.lt_iff_toNat_lt.mpr (by omega)
    rw [sweepRange, dif_neg (regular_iff.mp hreg), if_pos hsize, refusal, if_pos hreg]
    rfl
  · rw [sweepRange, dif_pos (not_not.mp (mt regular_iff.mpr hreg)), refusal, if_neg hreg]
    rfl

theorem sweepRange_sane (hs : Sane start stop size) :
    sweepRange host dev size body (.ok (start, stop)) = sweepAddress host dev body start stop := by
  have hreg := regular_iff.mp hs.1
  have hsize : ¬ stop > size := by
    have := hs.2
    intro hlt
    exact absurd (UInt32.lt_iff_toNat_lt.mp hlt) (by omega)
  have hloop := LoopHead.loop_eq (blockHead stop) body (stop.toNat - start.toNat) start
    (aligned_of_sane hreg) (fuel_blockHead start stop)
  rw [visits_eq (aligned_of_sane hreg) (Nat.le_refl _)] at hloop
  simp only [sweepRange, dif_neg hreg, if_neg hsize, hloop, bind_assoc, sweepAddress]
  congr 1
  funext status
  cases status with
  | error e => rfl
  | ok u =>
    refine congrArg (Program.scan body _ >>= ·) (funext fun left => ?_)
    cases left <;> rfl

end

/-- The range a dongle gave in an exchange, if it gave one. -/
def rangeIn (dev : Fcd) (x : Exchange) : Option (UInt32 × UInt32) :=
  (x.outcome (rangeRequest dev)).toOption.map rangeOf

theorem rangeIn_eq_none {dev : Fcd} {x : Exchange} :
    rangeIn dev x = none ↔ (⟨rangeRequest dev, x⟩ : Transaction).succeeded = false := by
  simp only [rangeIn, Transaction.succeeded]
  cases x.outcome (rangeRequest dev) <;> simp [Except.toOption, Except.toBool]

/-- A dongle gives one range in an exchange. -/
theorem rangeIn_unique {dev : Fcd} {x : Exchange} {start stop start' stop' : UInt32}
    (h : rangeIn dev x = some (start, stop)) (h' : rangeIn dev x = some (start', stop')) :
    start = start' ∧ stop = stop' := Prod.mk.inj (Option.some.inj (h.symm.trans h'))

section
variable (h : Host σ) (s : σ) (host : Endian) (dev : Fcd) (size : UInt32)
  (body : UInt32 → Hid (Option Int))

theorem sweep_no_range (hx : rangeIn dev (converse h (rangeRequest dev) s).1 = none) :
    Program.Runs h (sweep host (some dev) size body) s (-1)
      (converse h (rangeRequest dev) s).2
      ((converse h (rangeRequest dev) s).1.events (rangeRequest dev)) := by
  have hr := fcdBlGetAddressRange_spec h s host dev
  apply hr.bind_done
  cases ho : (converse h (rangeRequest dev) s).1.outcome (rangeRequest dev) with
  | error e => rfl
  | ok bytes => simp [rangeIn, ho, Except.toOption] at hx

/-- The range exchange, and what comes after it when a range was given. -/
theorem sweep_range {start stop : UInt32}
    (hx : rangeIn dev (converse h (rangeRequest dev) s).1 = some (start, stop))
    {r : Int} {t : σ} {es : List Happening}
    (hrun : Program.Runs h (sweepRange host (some dev) size body (.ok (start, stop)))
      (converse h (rangeRequest dev) s).2 r t es) :
    Program.Runs h (sweep host (some dev) size body) s r t
      ((converse h (rangeRequest dev) s).1.events (rangeRequest dev) ++ es) := by
  have hr := fcdBlGetAddressRange_spec h s host dev
  apply hr.bind
  cases ho : (converse h (rangeRequest dev) s).1.outcome (rangeRequest dev) with
  | error e => simp [rangeIn, ho, Except.toOption] at hx
  | ok bytes =>
    have hb : rangeOf bytes = (start, stop) := by
      simpa [rangeIn, ho, Except.toOption] using hx
    simpa only [Except.map, hb] using hrun

theorem sweep_refused {start stop : UInt32}
    (hx : rangeIn dev (converse h (rangeRequest dev) s).1 = some (start, stop))
    (hs : ¬ Sane start stop size) :
    Program.Runs h (sweep host (some dev) size body) s (refusal start stop)
      (converse h (rangeRequest dev) s).2
      ((converse h (rangeRequest dev) s).1.events (rangeRequest dev)) := by
  rw [← List.append_nil (Exchange.events _ _)]
  apply sweep_range h s host dev size body hx
  rw [sweepRange_refused host (some dev) body hs]
  exact Program.Runs.done h _ _

/-- A sweep ends behind the range exchange, unless the range that was given is sane. -/
theorem sweep_stops_or_sane :
    (∃ result, Program.Runs h (sweep host (some dev) size body) s result
        (converse h (rangeRequest dev) s).2
        ((converse h (rangeRequest dev) s).1.events (rangeRequest dev)) ∧
      (-3 ≤ result ∧ result ≤ -1) ∧ ∀ start stop,
        rangeIn dev (converse h (rangeRequest dev) s).1 = some (start, stop) →
          ¬ Sane start stop size) ∨
    ∃ start stop, rangeIn dev (converse h (rangeRequest dev) s).1 = some (start, stop) ∧
      Sane start stop size := by
  cases hx : rangeIn dev (converse h (rangeRequest dev) s).1 with
  | none => exact .inl ⟨-1, sweep_no_range h s host dev size body hx, by decide, by simp⟩
  | some range =>
    obtain ⟨start, stop⟩ := range
    by_cases hs : Sane start stop size
    · exact .inr ⟨start, stop, rfl, hs⟩
    · have hcode := refusal_range start stop
      refine .inl ⟨_, sweep_refused h s host dev size body hx hs, by omega, ?_⟩
      intro start' stop' hx'
      obtain ⟨rfl, rfl⟩ := Prod.mk.inj (Option.some.inj hx')
      exact hs

/-- A sane range leads to the address exchange and, past it, to the blocks. -/
theorem sweep_sane {start stop : UInt32}
    (hx : rangeIn dev (converse h (rangeRequest dev) s).1 = some (start, stop))
    (hs : Sane start stop size) {r : Int} {t : σ} {es : List Happening}
    (hrun : Program.Runs h (sweepAddress host (some dev) body start stop)
      (converse h (rangeRequest dev) s).2 r t es) :
    Program.Runs h (sweep host (some dev) size body) s r t
      ((converse h (rangeRequest dev) s).1.events (rangeRequest dev) ++ es) := by
  apply sweep_range h s host dev size body hx
  rwa [sweepRange_sane host (some dev) body hs]

/-- The exchange that sets the address, after the one for the range. -/
theorem sweep_no_address {start stop : UInt32}
    (hx : rangeIn dev (converse h (rangeRequest dev) s).1 = some (start, stop))
    (hs : Sane start stop size) {q : Request} (hq : q = addressRequest dev start) {t : σ}
    (ht : t = (converse h (rangeRequest dev) s).2)
    (hfail : (⟨q, (converse h q t).1⟩ : Transaction).succeeded = false) :
    Program.Runs h (sweep host (some dev) size body) s (-4) (converse h q t).2
      ((converse h (rangeRequest dev) s).1.events (rangeRequest dev) ++
        (converse h q t).1.events q) := by
  subst hq ht
  apply sweep_sane h s host dev size body hx hs
  have hset := fcdBlSetAddress_spec h (converse h (rangeRequest dev) s).2 host dev start
  obtain ⟨e, he⟩ := status_of_failed hfail
  simp only [he] at hset
  exact hset.bind_done rfl

/-- With the address set, the outcome is that of the blocks. -/
theorem sweep_through {start stop : UInt32}
    (hx : rangeIn dev (converse h (rangeRequest dev) s).1 = some (start, stop))
    (hs : Sane start stop size) {q : Request} (hq : q = addressRequest dev start) {t : σ}
    (ht : t = (converse h (rangeRequest dev) s).2)
    (hok : (⟨q, (converse h q t).1⟩ : Transaction).succeeded = true)
    {left : Option Int} {u : σ} {es : List Happening}
    (hscan : Program.Runs h (Program.scan body (addresses start (blockCount start stop)))
      (converse h q t).2 left u es) :
    Program.Runs h (sweep host (some dev) size body) s (left.getD 0) u
      ((converse h (rangeRequest dev) s).1.events (rangeRequest dev) ++
        ((converse h q t).1.events q ++ es)) := by
  subst hq ht
  apply sweep_sane h s host dev size body hx hs
  have hset := fcdBlSetAddress_spec h (converse h (rangeRequest dev) s).2 host dev start
  simp only [status_of_succeeded hok] at hset
  apply hset.bind
  cases left with
  | none => exact hscan.bind_done rfl
  | some r => exact hscan.bind_done rfl

end

end Libfcd.Proofs
