import Libfcd.Proofs.Verify
import Libfcd.Proofs.WriteTrace

namespace Libfcd.Proofs
open Interaction Memory Model

variable {σ β γ : Type}

/-- Rounds that went on to the next: round `k` asked `req k`, and `judge k` saw
nothing in the answer to leave the loop for. -/
def WentOn (req : Nat → Request) (judge : Nat → Exchange → Option γ) (ts : List Transaction) :
    Prop :=
  ∀ k t, ts[k]? = some t → t.request = req k ∧ judge k t.exchange = none

/-- The rounds of a loop that has `n` to go through. -/
inductive Rounds (req : Nat → Request) (judge : Nat → Exchange → Option γ) (n : Nat) :
    Option γ → List Transaction → Prop where
  | through (ts : List Transaction) (hlen : ts.length = n) (hgo : WentOn req judge ts) :
      Rounds req judge n none ts
  | left (ts : List Transaction) (x : Exchange) (r : γ) (hlen : ts.length < n)
      (hgo : WentOn req judge ts) (hr : judge ts.length x = some r) :
      Rounds req judge n (some r) (ts ++ [⟨req ts.length, x⟩])

theorem WentOn.nil (req : Nat → Request) (judge : Nat → Exchange → Option γ) :
    WentOn req judge [] := by
  intro k t ht
  cases ht

/-- The rounds behind the first count from one. -/
theorem WentOn.cons {req : Nat → Request} {judge : Nat → Exchange → Option γ} {x : Exchange}
    {ts : List Transaction} (hx : judge 0 x = none)
    (h : WentOn (fun k => req (k + 1)) (fun k => judge (k + 1)) ts) :
    WentOn req judge (⟨req 0, x⟩ :: ts) := by
  intro k t ht
  cases k with
  | zero =>
    obtain rfl := Option.some.inj ht
    exact ⟨rfl, hx⟩
  | succ k => exact h k t ht

theorem Rounds.cons {req : Nat → Request} {judge : Nat → Exchange → Option γ} {n : Nat}
    {left : Option γ} {x : Exchange} {ts : List Transaction} (hx : judge 0 x = none)
    (h : Rounds (fun k => req (k + 1)) (fun k => judge (k + 1)) n left ts) :
    Rounds req judge (n + 1) left (⟨req 0, x⟩ :: ts) := by
  cases h with
  | through ts hlen hgo => exact .through _ (congrArg Nat.succ hlen) (hgo.cons hx)
  | left ts y r hlen hgo hr =>
    exact .left (⟨req 0, x⟩ :: ts) y r (Nat.succ_lt_succ hlen) (hgo.cons hx) hr

/-- A loop whose round at the `k`-th counter is one exchange and its judgement. -/
theorem scan_rounds {h : Host σ} {body : β → Hid (Option γ)} {req : Nat → Request}
    {judge : Nat → Exchange → Option γ} {bs : List β} {n : Nat} (hn : bs.length = n)
    (hbody : ∀ k b, bs[k]? = some b → ∀ s, Program.Runs h (body b) s
      (judge k (converse h (req k) s).1) (converse h (req k) s).2
      ((converse h (req k) s).1.events (req k))) (s : σ) :
    ∃ left t ts, Program.Runs h (Program.scan body bs) s left t (ts.flatMap Transaction.events) ∧
      Rounds req judge n left ts := by
  subst hn
  induction bs generalizing s req judge with
  | nil => exact ⟨none, s, [], .done h none s, .through [] rfl (.nil req judge)⟩
  | cons b bs ih =>
    have hb := hbody 0 b rfl s
    cases hx : judge 0 (converse h (req 0) s).1 with
    | none =>
      rw [hx] at hb
      obtain ⟨left, t, ts, hrun, hrest⟩ := ih (fun k => hbody (k + 1)) (converse h (req 0) s).2
      exact ⟨left, t, ⟨req 0, _⟩ :: ts, hb.scan_next hrun, hrest.cons hx⟩
    | some r =>
      rw [hx, ← List.append_nil (Exchange.events _ _)] at hb
      exact ⟨some r, _, [⟨req 0, _⟩], hb.scan_leave bs,
        .left [] _ r (Nat.succ_pos _) (.nil req judge) hx⟩

/-- Round `k` of a loop over flash is at the `k`-th block of the range. -/
theorem toNat_of_getElem?_addresses {start addr : UInt32} {n k : Nat}
    (h : start.toNat + 48 * n < 2 ^ 32) (ha : (addresses start n)[k]? = some addr) :
    k < n ∧ addr.toNat = start.toNat + 48 * k := by
  induction n generalizing start k with
  | zero => cases ha
  | succ n ih =>
    cases k with
    | zero =>
      obtain rfl := Option.some.inj ha
      exact ⟨Nat.succ_pos n, rfl⟩
    | succ k =>
      have hadd := toNat_add_48 start (by omega)
      have hnext : (start + 48).toNat + 48 * n < 2 ^ 32 := by omega
      obtain ⟨hk, haddr⟩ := ih hnext ha
      exact ⟨Nat.succ_lt_succ hk, by omega⟩

/-- The block of the image that belongs at the `k`-th block of a range. -/
def imageBlock (data : Bytes) (start : UInt32) (k : Nat) : Bytes :=
  data.extract (start.toNat + 48 * k) (start.toNat + 48 * k + 48)

/-- What a round of the writing loop does about an exchange. -/
def judgeWrite (dev : Fcd) (data : Bytes) (start : UInt32) (k : Nat) (x : Exchange) : Option Int :=
  if (⟨blockRequest dev (imageBlock data start k), x⟩ : Transaction).succeeded then none
  else some (-5)

/-- What a round of the verifying loop does about an exchange. -/
def judgeRead (dev : Fcd) (data : Bytes) (start : UInt32) (k : Nat) (x : Exchange) : Option Int :=
  match x.outcome (readRequest dev) with
  | .error _ => some (-6)
  | .ok bytes => if bytes = imageBlock data start k then none else some 1

section
variable (h : Host σ) (s : σ) (dev : Fcd) {data : Bytes} {start stop : UInt32}
  (hreg : Regular start stop) (hfit : stop.toNat ≤ data.length)
include hreg hfit

/-- Every block of the range is one of the image. -/
theorem address_of_round {k : Nat} {addr : UInt32}
    (ha : (addresses start (blockCount start stop))[k]? = some addr) :
    addr.toNat = start.toNat + 48 * k ∧ addr.toNat + 48 ≤ data.length := by
  have hend := hreg.mul_blockCount
  have hlt := stop.toNat_lt
  obtain ⟨hk, haddr⟩ := toNat_of_getElem?_addresses (by omega) ha
  exact ⟨haddr, by omega⟩

theorem write_rounds : ∃ left t ts, Program.Runs h
      (Program.scan (writeBody dev data) (addresses start (blockCount start stop))) s left t
      (ts.flatMap Transaction.events) ∧
    Rounds (fun k => blockRequest dev (imageBlock data start k)) (judgeWrite dev data start)
      (blockCount start stop) left ts := by
  refine scan_rounds (length_addresses start _) (fun k addr ha s => ?_) s
  obtain ⟨haddr, hroom⟩ := address_of_round hreg hfit ha
  have hround := writeBody_runs h s dev data addr hroom
  have hblock : (pointer data addr).take 48 = imageBlock data start k := by
    simp only [pointer, imageBlock, haddr, List.extract_eq_take_drop, Nat.add_sub_cancel_left]
  rwa [hblock] at hround

theorem verify_rounds : ∃ left t ts, Program.Runs h
      (Program.scan (verifyBody dev data) (addresses start (blockCount start stop))) s left t
      (ts.flatMap Transaction.events) ∧
    Rounds (fun _ => readRequest dev) (judgeRead dev data start) (blockCount start stop) left
      ts := by
  refine scan_rounds (length_addresses start _) (fun k addr ha s => ?_) s
  obtain ⟨haddr, hroom⟩ := address_of_round hreg hfit ha
  have hround := verifyBody_runs h s dev data addr hroom
  have hjudge : ∀ x, compared data addr (Exchange.outcome (readRequest dev) x) =
      judgeRead dev data start k x := by
    intro x
    simp only [compared, judgeRead, imageBlock, haddr]
    cases x.outcome (readRequest dev) <;> rfl
  rw [← hjudge]
  exact hround

end

/-- How a pass over flash ends, and the transactions it comes to. `x` answers the
request for the range and `y` the one that sets the address. -/
inductive Pass (dev : Fcd) (size : UInt32) (x : Exchange) (y : UInt32 → Exchange)
    (req : UInt32 → Nat → Request) (judge : UInt32 → Nat → Exchange → Option Int) :
    Int → List Transaction → Prop where
  | noRange (hx : rangeIn dev x = none) : Pass dev size x y req judge (-1) [⟨rangeRequest dev, x⟩]
  | refused (start stop : UInt32) (hx : rangeIn dev x = some (start, stop))
      (hs : ¬ Sane start stop size) :
      Pass dev size x y req judge (refusal start stop) [⟨rangeRequest dev, x⟩]
  | noAddress (start stop : UInt32) (hx : rangeIn dev x = some (start, stop))
      (hs : Sane start stop size)
      (hy : (⟨addressRequest dev start, y start⟩ : Transaction).succeeded = false) :
      Pass dev size x y req judge (-4)
        [⟨rangeRequest dev, x⟩, ⟨addressRequest dev start, y start⟩]
  | blocks (start stop : UInt32) (hx : rangeIn dev x = some (start, stop))
      (hs : Sane start stop size)
      (hy : (⟨addressRequest dev start, y start⟩ : Transaction).succeeded = true)
      (left : Option Int) (ts : List Transaction)
      (hr : Rounds (req start) (judge start) (blockCount start stop) left ts) :
      Pass dev size x y req judge (left.getD 0)
        (⟨rangeRequest dev, x⟩ :: ⟨addressRequest dev start, y start⟩ :: ts)

/-- What a host answers to the request for the range, which comes first. -/
def ranging (h : Host σ) (dev : Fcd) (s : σ) : Exchange × σ := converse h (rangeRequest dev) s

/-- What it answers to the one that sets the address, which comes next. -/
def addressing (h : Host σ) (dev : Fcd) (s : σ) (start : UInt32) : Exchange × σ :=
  converse h (addressRequest dev start) (ranging h dev s).2

theorem sweep_pass (h : Host σ) (s : σ) (host : Endian) (dev : Fcd) (size : UInt32)
    {body : UInt32 → Hid (Option Int)} {req : UInt32 → Nat → Request}
    {judge : UInt32 → Nat → Exchange → Option Int}
    (hscan : ∀ start stop, Sane start stop size → ∀ s, ∃ left t ts, Program.Runs h
      (Program.scan body (addresses start (blockCount start stop))) s left t
        (ts.flatMap Transaction.events) ∧
      Rounds (req start) (judge start) (blockCount start stop) left ts) :
    ∃ result t ts, Program.Runs h (sweep host (some dev) size body) s result t
        (ts.flatMap Transaction.events) ∧
      Pass dev size (ranging h dev s).1 (fun start => (addressing h dev s start).1) req judge
        result ts := by
  cases hx : rangeIn dev (ranging h dev s).1 with
  | none =>
    have hrun := sweep_no_range h s host dev size body hx
    rw [← List.append_nil (Exchange.events _ _)] at hrun
    exact ⟨-1, _, _, hrun, .noRange hx⟩
  | some range =>
    obtain ⟨start, stop⟩ := range
    by_cases hs : Sane start stop size
    · cases hy : (⟨addressRequest dev start, (addressing h dev s start).1⟩ :
          Transaction).succeeded with
      | false =>
        have hrun := sweep_no_address h s host dev size body hx hs rfl rfl hy
        rw [← List.append_nil (Exchange.events (addressRequest dev start) _)] at hrun
        exact ⟨-4, _, _, hrun, .noAddress start stop hx hs hy⟩
      | true =>
        obtain ⟨left, t, ts, hblocks, hrounds⟩ := hscan start stop hs (addressing h dev s start).2
        exact ⟨_, t, _, sweep_through h s host dev size body hx hs rfl rfl hy hblocks,
          .blocks start stop hx hs hy left ts hrounds⟩
    · have hrun := sweep_refused h s host dev size body hx hs
      rw [← List.append_nil (Exchange.events _ _)] at hrun
      exact ⟨_, _, _, hrun, .refused start stop hx hs⟩

/-- A write is a pass that judges its exchanges by their success alone. -/
theorem fcdBlFlashWrite_pass (h : Host σ) (s : σ) (host : Endian) (dev : Fcd) {data : Bytes}
    {size : UInt32} (hsize : size.toNat ≤ data.length) :
    ∃ result t ts, Program.Runs h (fcdBlFlashWrite host (some dev) data size) s result t
        (ts.flatMap Transaction.events) ∧
      Pass dev size (ranging h dev s).1 (fun start => (addressing h dev s start).1)
        (fun start k => blockRequest dev (imageBlock data start k)) (judgeWrite dev data)
        result ts := by
  rw [fcdBlFlashWrite_eq]
  exact sweep_pass h s host dev size (fun start stop hs s =>
    write_rounds h s dev hs.1 (Nat.le_trans hs.2 hsize))

/-- A verification is one that looks at the data as well. -/
theorem fcdBlFlashVerify_pass (h : Host σ) (s : σ) (host : Endian) (dev : Fcd) {data : Bytes}
    {size : UInt32} (hsize : size.toNat ≤ data.length) :
    ∃ result t ts, Program.Runs h (fcdBlFlashVerify host (some dev) data size) s result t
        (ts.flatMap Transaction.events) ∧
      Pass dev size (ranging h dev s).1 (fun start => (addressing h dev s start).1)
        (fun _ _ => readRequest dev) (judgeRead dev data) result ts := by
  rw [fcdBlFlashVerify_eq]
  exact sweep_pass h s host dev size (fun start stop hs s =>
    verify_rounds h s dev hs.1 (Nat.le_trans hs.2 hsize))

end Libfcd.Proofs
