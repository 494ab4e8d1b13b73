import Libfcd.Model.Flash
import Libfcd.Proofs.Passes

namespace Libfcd.Proofs
open Interaction Memory Model Devices

variable {σ : Type}

/-- The code names the first step that failed, and nothing is asked behind it. The
steps before the blocks are those of every pass. -/
structure Named (dev : Fcd) (size : UInt32) (x : Exchange) (y : UInt32 → Exchange) (result : Int)
    (ts : List Transaction) : Prop where
  first : ∃ rest, ts = ⟨rangeRequest dev, x⟩ :: rest
  no_range : result = -1 ↔ (⟨rangeRequest dev, x⟩ : Transaction).succeeded = false
  insane : result = -2 ↔ ∃ start stop, rangeIn dev x = some (start, stop) ∧
    (start ≥ stop ∨ ¬ 48 ∣ stop.toNat - start.toNat)
  too_small : result = -3 ↔ ∃ start stop, rangeIn dev x = some (start, stop) ∧
    (start < stop ∧ 48 ∣ stop.toNat - start.toNat) ∧ stop > size
  no_address : result = -4 ↔ ∃ start stop, rangeIn dev x = some (start, stop) ∧
    Sane start stop size ∧ (⟨addressRequest dev start, y start⟩ : Transaction).succeeded = false
  unasked : (∀ start stop, rangeIn dev x = some (start, stop) → ¬ Sane start stop size) →
    ts = [⟨rangeRequest dev, x⟩]
  stops : ∀ t ∈ ts.dropLast, t.succeeded = true

/-- The entry for a code is there: that of its number, or the first. -/
def Listed (result : Int) : Prop :=
  flashErrorMessage[if result < 0 then (-result).toNat else 0]? = some (errorMsg result)

theorem listed_of_range {result : Int} (hlo : -6 ≤ result) (hhi : result ≤ 1) : Listed result := by
  interval_cases result <;> rfl

theorem regular_iff_lt {start stop : UInt32} :
    Regular start stop ↔ start < stop ∧ 48 ∣ stop.toNat - start.toNat :=
  and_congr_left' UInt32.lt_iff_toNat_lt.symm

theorem not_regular_iff {start stop : UInt32} :
    ¬ Regular start stop ↔ start ≥ stop ∨ ¬ 48 ∣ stop.toNat - start.toNat := by
  rw [regular_iff_lt, not_and_or, UInt32.not_lt]

theorem not_sane_iff {start stop size : UInt32} (hreg : Regular start stop) :
    ¬ Sane start stop size ↔ stop > size := by
  rw [Sane, and_iff_right hreg, Nat.not_le]
  exact UInt32.lt_iff_toNat_lt.symm

section
variable {dev : Fcd} {size : UInt32} {x : Exchange} {y : UInt32 → Exchange}
  {req : UInt32 → Nat → Request} {judge : UInt32 → Nat → Exchange → Option Int}

theorem succeeded_of_rangeIn {start stop : UInt32} (hx : rangeIn dev x = some (start, stop)) :
    (⟨rangeRequest dev, x⟩ : Transaction).succeeded = true := by
  rw [← Bool.not_eq_false, ← rangeIn_eq_none, hx]
  exact Option.some_ne_none _

/-- Before the last round none has failed. -/
theorem Rounds.succeeded {req : Nat → Request} {judge : Nat → Exchange → Option Int}
    (hgo : ∀ k x, judge k x = none → (⟨req k, x⟩ : Transaction).succeeded = true) {n : Nat}
    {left : Option Int} {ts : List Transaction} (h : Rounds req judge n left ts) :
    ∀ t ∈ ts.dropLast, t.succeeded = true := by
  have hwent : ∀ us : List Transaction, WentOn req judge us → ∀ t ∈ us, t.succeeded = true := by
    intro us hus t ht
    obtain ⟨k, hk⟩ := List.mem_iff_getElem?.mp ht
    obtain ⟨hreq, hjudge⟩ := hus k t hk
    have := hgo k t.exchange hjudge
    rwa [← hreq] at this
  cases h with
  | through ts hlen hw => exact fun t ht => hwent ts hw t (List.dropLast_subset ts ht)
  | left ts y r hlen hw hr =>
    rw [List.dropLast_concat]
    exact hwent ts hw

/-- A round that leaves the loop does so with a code of its own. -/
theorem Rounds.code {req : Nat → Request} {judge : Nat → Exchange → Option Int} {P : Int → Prop}
    (hjudge : ∀ k x r, judge k x = some r → P r) (h0 : P 0) {n : Nat} {left : Option Int}
    {ts : List Transaction} (h : Rounds req judge n left ts) : P (left.getD 0) := by
  cases h with
  | through ts hlen hw => exact h0
  | left ts y r hlen hw hr => exact hjudge _ _ _ hr

/-- Before the blocks the code is decided by the two exchanges there are by then. -/
theorem Pass.named (hgo : ∀ start k x, judge start k x = none →
      (⟨req start k, x⟩ : Transaction).succeeded = true)
    (hcode : ∀ start k x r, judge start k x = some r → r ≤ -5 ∨ 0 ≤ r) {result : Int}
    {ts : List Transaction} (h : Pass dev size x y req judge result ts) :
    Named dev size x y result ts := by
  cases h with
  | noRange hx =>
    have hfail := rangeIn_eq_none.mp hx
    exact ⟨⟨[], rfl⟩, iff_of_true rfl hfail, by simp [hx], by simp [hx], by simp [hx],
      fun _ => rfl, by simp⟩
  | refused start stop hx hs =>
    have hok := succeeded_of_rangeIn hx
    have hcodes := refusal_range start stop
    refine ⟨⟨[], rfl⟩, iff_of_false (by omega) (by simp [hok]), ?_, ?_, ?_, fun _ => rfl, by simp⟩
    · by_cases hreg : Regular start stop
      · simp [hx, refusal, hreg, ← not_regular_iff]
      · simp [hx, refusal, hreg, ← not_regular_iff]
    · by_cases hreg : Regular start stop
      · simp [hx, refusal, hreg, ← regular_iff_lt, (not_sane_iff hreg).mp hs]
      · simp [hx, refusal, hreg, ← regular_iff_lt]
    · refine iff_of_false (by omega) ?_
      simp [hx, hs]
  | noAddress start stop hx hs hy =>
    have hok := succeeded_of_rangeIn hx
    have hsmall := mt (not_sane_iff hs.1).mpr (not_not.mpr hs)
    refine ⟨⟨_, rfl⟩, iff_of_false (by decide) (by simp [hok]), iff_of_false (by decide) ?_,
      iff_of_false (by decide) ?_, iff_of_true rfl ⟨start, stop, hx, hs, hy⟩,
      fun hno => absurd hs (hno start stop hx), by simp [hok]⟩
    · simp [hx, ← not_regular_iff, hs.1]
    · simp [hx, hsmall]
  | blocks start stop hx hs hy left ts hr =>
    have hok := succeeded_of_rangeIn hx
    have hsmall := mt (not_sane_iff hs.1).mpr (not_not.mpr hs)
    have hleft : left.getD 0 ≤ -5 ∨ 0 ≤ left.getD 0 :=
      hr.code (P := fun r => r ≤ -5 ∨ 0 ≤ r) (hcode start) (.inr (Int.le_refl 0))
    refine ⟨⟨_, rfl⟩, iff_of_false (by omega) (by simp [hok]), iff_of_false (by omega) ?_,
      iff_of_false (by omega) ?_, iff_of_false (by omega) ?_,
      fun hno => absurd hs (hno start stop hx), ?_⟩
    · simp [hx, ← not_regular_iff, hs.1]
    · simp [hx, hsmall]
    · simp [hx, hy]
    · cases ts with
      | nil => simp [hok]
      | cons t us => simpa [List.dropLast, hok, hy] using hr.succeeded (hgo start)

end

section
variable {req : Nat → Request} {judge : Nat → Exchange → Option Int} {n : Nat}
  {left : Option Int} {ts : List Transaction}

theorem Rounds.request (h : Rounds req judge n left ts) {k : Nat} {t : Transaction}
    (ht : ts[k]? = some t) : t.request = req k := by
  cases h with
  | through ts hlen hw => exact (hw k t ht).1
  | left ts x r hlen hw hr =>
    rcases Nat.lt_trichotomy k ts.length with hk | rfl | hk
    · rw [List.getElem?_append_left hk] at ht
      exact (hw k t ht).1
    · rw [List.getElem?_concat_length] at ht
      obtain rfl := Option.some.inj ht
      rfl
    · rw [List.getElem?_eq_none (by simp; omega)] at ht
      cases ht

/-- A loop is left in the round whose exchange says so, and only there. -/
theorem Rounds.left_iff (h : Rounds req judge n left ts) {r : Int} :
    left = some r ↔ ∃ k t, ts[k]? = some t ∧ judge k t.exchange = some r := by
  cases h with
  | through ts hlen hw =>
    refine iff_of_false (Option.some_ne_none r).symm ?_
    intro hsome
    obtain ⟨k, t, ht, hr⟩ := hsome
    rw [(hw k t ht).2] at hr
    cases hr
  | left ts x r' hlen hw hr =>
    constructor
    · rintro ⟨⟩
      exact ⟨ts.length, _, List.getElem?_concat_length, hr⟩
    · intro hsome
      obtain ⟨k, t, ht, hjudge⟩ := hsome
      rcases Nat.lt_trichotomy k ts.length with hk | rfl | hk
      · rw [List.getElem?_append_left hk] at ht
        rw [(hw k t ht).2] at hjudge
        cases hjudge
      · rw [List.getElem?_concat_length] at ht
        obtain rfl := Option.some.inj ht
        exact hr.symm.trans hjudge
      · rw [List.getElem?_eq_none (by simp; omega)] at ht
        cases ht

/-- Every round before another went on. -/
theorem Rounds.before (h : Rounds req judge n left ts) {j : Nat} (hj : j + 1 < ts.length) :
    ∃ u, ts[j]? = some u ∧ judge j u.exchange = none := by
  cases h with
  | through ts hlen hw =>
    have hget := List.getElem?_eq_getElem (Nat.lt_of_succ_lt hj)
    exact ⟨_, hget, (hw j _ hget).2⟩
  | left ts x r hlen hw hr =>
    rw [List.length_append, List.length_singleton] at hj
    have hlt := Nat.lt_of_succ_lt_succ hj
    have hget := List.getElem?_eq_getElem hlt
    exact ⟨_, (List.getElem?_append_left hlt).trans hget, (hw j _ hget).2⟩

end

/-- The codes of a write, with the one that its blocks may bring. -/
structure WriteNamed (dev : Fcd) (data : Bytes) (x : Exchange) (result : Int)
    (ts : List Transaction) : Prop where
  block_failed : result = -5 ↔
    ∃ t ∈ ts, t.request.command = fcdCmdWriteBlock ∧ t.succeeded = false
  blocks : ∀ start stop k t, rangeIn dev x = some (start, stop) → ts[k + 2]? = some t →
    t.request = blockRequest dev (imageBlock data start k)
  codes : -5 ≤ result ∧ result ≤ 0

/-- The reads of the `k` blocks in front of another brought those of the image. -/
def SameBefore (data : Bytes) (start : UInt32) (ts : List Transaction) (k : Nat) : Prop :=
  ∀ j < k, ∃ t, ts[j + 2]? = some t ∧
    t.exchange.outcome t.request = .ok (imageBlock data start j)

/-- The codes of a verification, with the two that its blocks may bring. -/
structure VerifyNamed (dev : Fcd) (data : Bytes) (x : Exchange) (result : Int)
    (ts : List Transaction) : Prop where
  read_failed : result = -6 ↔ ∃ start stop k t, rangeIn dev x = some (start, stop) ∧
    ts[k + 2]? = some t ∧ t.succeeded = false ∧ SameBefore data start ts k
  mismatch : result = 1 ↔ ∃ start stop k t bytes, rangeIn dev x = some (start, stop) ∧
    ts[k + 2]? = some t ∧ t.exchange.outcome t.request = .ok bytes ∧
    bytes ≠ imageBlock data start k ∧ SameBefore data start ts k
  reads : ∀ k t, ts[k + 2]? = some t → t.request = readRequest dev
  before : ∀ start stop k t, rangeIn dev x = some (start, stop) → ts[k + 2]? = some t →
    SameBefore data start ts k
  /-- A block that is not the image's is the last to be read. -/
  ends : ∀ start stop k t bytes, rangeIn dev x = some (start, stop) → ts[k + 2]? = some t →
    t.exchange.outcome t.request = .ok bytes → bytes ≠ imageBlock data start k →
    ts.length = k + 3
  codes : (-6 ≤ result ∧ result ≤ 1) ∧ result ≠ -5

theorem judgeWrite_eq_some {dev : Fcd} {data : Bytes} {start : UInt32} {k : Nat} {x : Exchange}
    {r : Int} : judgeWrite dev data start k x = some r ↔
      (⟨blockRequest dev (imageBlock data start k), x⟩ : Transaction).succeeded = false ∧
        r = -5 := by
  unfold judgeWrite
  cases (⟨blockRequest dev (imageBlock data start k), x⟩ : Transaction).succeeded with
  | true => simp
  | false => simpa using eq_comm

theorem judgeRead_eq_none {dev : Fcd} {data : Bytes} {start : UInt32} {k : Nat} {x : Exchange} :
    judgeRead dev data start k x = none ↔
      x.outcome (readRequest dev) = .ok (imageBlock data start k) := by
  unfold judgeRead
  cases x.outcome (readRequest dev) with
  | error e => simp
  | ok bytes => by_cases hb : bytes = imageBlock data start k <;> simp [hb]

theorem judgeRead_eq_failed {dev : Fcd} {data : Bytes} {start : UInt32} {k : Nat} {x : Exchange} :
    judgeRead dev data start k x = some (-6) ↔
      (⟨readRequest dev, x⟩ : Transaction).succeeded = false := by
  rw [judgeRead, failed_iff]
  cases x.outcome (readRequest dev) with
  | error e => simp
  | ok bytes => by_cases hb : bytes = imageBlock data start k <;> simp [hb]

theorem judgeRead_eq_one {dev : Fcd} {data : Bytes} {start : UInt32} {k : Nat} {x : Exchange} :
    judgeRead dev data start k x = some 1 ↔ ∃ bytes, x.outcome (readRequest dev) = .ok bytes ∧
      bytes ≠ imageBlock data start k := by
  unfold judgeRead
  cases x.outcome (readRequest dev) with
  | error e => simp
  | ok bytes => by_cases hb : bytes = imageBlock data start k <;> simp [hb]

theorem judgeRead_codes {dev : Fcd} {data : Bytes} {start : UInt32} {k : Nat} {x : Exchange}
    {r : Int} (h : judgeRead dev data start k x = some r) : r = -6 ∨ r = 1 := by
  unfold judgeRead at h
  cases ho : x.outcome (readRequest dev) with
  | error e => simp_all
  | ok bytes => by_cases hb : bytes = imageBlock data start k <;> simp_all

section
variable {dev : Fcd} {data : Bytes} {size : UInt32} {x : Exchange} {y : UInt32 → Exchange}
  {req : UInt32 → Nat → Request} {judge : UInt32 → Nat → Exchange → Option Int} {result : Int}
  {ts : List Transaction}

/-- A pass that came to no block at all. -/
structure Early (result : Int) (ts : List Transaction) : Prop where
  code : -4 ≤ result ∧ result ≤ -1
  short : ts.length ≤ 2
  commands : ∀ t ∈ ts, t.request.command ≠ fcdCmdWriteBlock

theorem Pass.early_or_blocks (h : Pass dev size x y req judge result ts) :
    Early result ts ∨ ∃ start stop left us, rangeIn dev x = some (start, stop) ∧
      result = left.getD 0 ∧
      ts = ⟨rangeRequest dev, x⟩ :: ⟨addressRequest dev start, y start⟩ :: us ∧
      Rounds (req start) (judge start) (blockCount start stop) left us := by
  have hrange : (rangeRequest dev).command ≠ fcdCmdWriteBlock :=
    (by decide : fcdCmdGetByteAddrRange ≠ fcdCmdWriteBlock)
  cases h with
  | noRange hx => exact .inl ⟨by decide, by simp, by simpa using hrange⟩
  | refused start stop hx hs =>
    have hcode := refusal_range start stop
    exact .inl ⟨by omega, by simp, by simpa using hrange⟩
  | noAddress start stop hx hs hy =>
    have haddress : (addressRequest dev start).command ≠ fcdCmdWriteBlock :=
      (by decide : fcdCmdSetByteAddr ≠ fcdCmdWriteBlock)
    exact .inl ⟨by decide, by simp, by simpa using ⟨hrange, haddress⟩⟩
  | blocks start stop hx hs hy left us hr => exact .inr ⟨start, stop, left, us, hx, rfl, rfl, hr⟩

theorem writeNamed_of_pass (h : Pass dev size x y
      (fun start k => blockRequest dev (imageBlock data start k)) (judgeWrite dev data)
      result ts) : WriteNamed dev data x result ts := by
  rcases h.early_or_blocks with he | ⟨start, stop, left, us, hx, rfl, rfl, hr⟩
  · have hcode := he.code
    have hshort := he.short
    refine ⟨iff_of_false (by omega) ?_, fun _ _ k t _ ht => ?_, by omega⟩
    · intro hsome
      obtain ⟨t, ht, hcmd, -⟩ := hsome
      exact he.commands t ht hcmd
    · rw [List.getElem?_eq_none (by omega)] at ht
      cases ht
  · have hcode : left = none ∨ left = some (-5) := by
      cases hr with
      | through ts hlen hw => exact .inl rfl
      | left ts x r hlen hw hjudge => exact .inr (congrArg some (judgeWrite_eq_some.mp hjudge).2)
    refine ⟨?_, fun start' stop' k t hx' ht => ?_, by rcases hcode with rfl | rfl <;> decide⟩
    · have hfail : left.getD 0 = -5 ↔ left = some (-5) := by
        rcases hcode with rfl | rfl <;> decide
      rw [hfail, hr.left_iff]
      constructor
      · intro hsome
        obtain ⟨k, t, ht, hjudge⟩ := hsome
        have hreq := hr.request ht
        refine ⟨t, by simp [List.mem_of_getElem? ht], by rw [hreq]; rfl, ?_⟩
        have hfailed := (judgeWrite_eq_some.mp hjudge).1
        rwa [← hreq] at hfailed
      · intro hsome
        obtain ⟨t, ht, hcmd, hfailed⟩ := hsome
        rcases List.mem_cons.mp ht with rfl | ht
        · exact absurd hcmd (by decide : fcdCmdGetByteAddrRange ≠ fcdCmdWriteBlock)
        rcases List.mem_cons.mp ht with rfl | ht
        · exact absurd hcmd (by decide : fcdCmdSetByteAddr ≠ fcdCmdWriteBlock)
        obtain ⟨k, hk⟩ := List.mem_iff_getElem?.mp ht
        refine ⟨k, t, hk, judgeWrite_eq_some.mpr ⟨?_, rfl⟩⟩
        rwa [← hr.request hk]
    · obtain ⟨rfl, rfl⟩ := rangeIn_unique hx hx'
      exact hr.request ht

/-- A round of the verifying loop came behind the blocks of the image only. -/
theorem Rounds.sameBefore {start : UInt32} {n : Nat} {left : Option Int} {us : List Transaction}
    (hr : Rounds (fun _ => readRequest dev) (judgeRead dev data start) n left us) {k : Nat}
    {t : Transaction} (ht : us[k]? = some t) (v w : Transaction) :
    SameBefore data start (v :: w :: us) k := by
  intro j hj
  obtain ⟨hk, -⟩ := List.getElem?_eq_some_iff.mp ht
  obtain ⟨u, hu, hjudge⟩ := hr.before (j := j) (by omega)
  refine ⟨u, hu, ?_⟩
  rw [hr.request hu]
  exact judgeRead_eq_none.mp hjudge

/-- Behind a block that is not the image's there is no round. -/
theorem Rounds.ends {start : UInt32} {n : Nat} {left : Option Int} {us : List Transaction}
    (hr : Rounds (fun _ => readRequest dev) (judgeRead dev data start) n left us) {k : Nat}
    {t : Transaction} (ht : us[k]? = some t) {bytes : Bytes}
    (hok : t.exchange.outcome t.request = .ok bytes) (hne : bytes ≠ imageBlock data start k) :
    us.length = k + 1 := by
  obtain ⟨hk, -⟩ := List.getElem?_eq_some_iff.mp ht
  by_contra hlen
  obtain ⟨u, hu, hjudge⟩ := hr.before (j := k) (by omega)
  obtain rfl := Option.some.inj (hu.symm.trans ht)
  rw [hr.request hu, judgeRead_eq_none.mp hjudge] at hok
  exact hne (Except.ok.inj hok).symm

theorem verifyNamed_of_pass (h : Pass dev size x y (fun _ _ => readRequest dev)
      (judgeRead dev data) result ts) : VerifyNamed dev data x result ts := by
  rcases h.early_or_blocks with he | ⟨start, stop, left, us, hx, rfl, rfl, hr⟩
  · have hcode := he.code
    have hnone : ∀ k, ts[k + 2]? = none := by
      have hshort := he.short
      exact fun k => List.getElem?_eq_none (by omega)
    refine ⟨iff_of_false (by omega) ?_, iff_of_false (by omega) ?_, ?_, ?_, ?_, by omega⟩
    all_goals simp [hnone]
  · have hcode : left = none ∨ left = some (-6) ∨ left = some 1 := by
      cases hr with
      | through ts hlen hw => exact .inl rfl
      | left ts x r hlen hw hjudge =>
        exact .inr ((judgeRead_codes hjudge).imp (congrArg some) (congrArg some))
    have hrange : ∀ start' stop', rangeIn dev x = some (start', stop') → start' = start :=
      fun start' stop' hx' => (rangeIn_unique hx' hx).1
    refine ⟨?_, ?_, fun k t ht => hr.request ht, fun start' stop' k t hx' ht => ?_,
      fun start' stop' k t bytes hx' ht hok hne => ?_,
      by rcases hcode with rfl | rfl | rfl <;> decide⟩
    · have hfail : left.getD 0 = -6 ↔ left = some (-6) := by
        rcases hcode with rfl | rfl | rfl <;> decide
      rw [hfail, hr.left_iff]
      constructor
      · intro hsome
        obtain ⟨k, t, ht, hjudge⟩ := hsome
        have hfailed := judgeRead_eq_failed.mp hjudge
        rw [← hr.request ht] at hfailed
        exact ⟨start, stop, k, t, hx, ht, hfailed, hr.sameBefore ht _ _⟩
      · intro hsome
        obtain ⟨start', stop', k, t, hx', ht, hfailed, -⟩ := hsome
        refine ⟨k, t, ht, judgeRead_eq_failed.mpr ?_⟩
        rwa [← hr.request ht]
    · have hone : left.getD 0 = 1 ↔ left = some 1 := by
        rcases hcode with rfl | rfl | rfl <;> decide
      rw [hone, hr.left_iff]
      constructor
      · intro hsome
        obtain ⟨k, t, ht, hjudge⟩ := hsome
        obtain ⟨bytes, hok, hne⟩ := judgeRead_eq_one.mp hjudge
        rw [← hr.request ht] at hok
        exact ⟨start, stop, k, t, bytes, hx, ht, hok, hne, hr.sameBefore ht _ _⟩
      · intro hsome
        obtain ⟨start', stop', k, t, bytes, hx', ht, hok, hne, -⟩ := hsome
        rw [hr.request ht] at hok
        exact ⟨k, t, ht, judgeRead_eq_one.mpr ⟨bytes, hok, hrange _ _ hx' ▸ hne⟩⟩
    · obtain rfl := hrange _ _ hx'
      exact hr.sameBefore ht _ _
    · obtain rfl := hrange _ _ hx'
      exact congrArg (· + 2) (hr.ends ht hok hne)

/-- Two passes that meet the same range and the same answer to its address. -/
theorem Named.agree {w v : Int} {ws vs : List Transaction} (hw : Named dev size x y w ws)
    (hv : Named dev size x y v vs) (hc : -4 ≤ w ∧ w ≤ -1) : w = v := by
  have hcases : w = -1 ∨ w = -2 ∨ w = -3 ∨ w = -4 := by omega
  rcases hcases with rfl | rfl | rfl | rfl
  · exact (hv.no_range.mpr (hw.no_range.mp rfl)).symm
  · exact (hv.insane.mpr (hw.insane.mp rfl)).symm
  · exact (hv.too_small.mpr (hw.too_small.mp rfl)).symm
  · exact (hv.no_address.mpr (hw.no_address.mp rfl)).symm

end

section
variable (h : Host σ) (s : σ) (host : Endian) (dev : Fcd) {data : Bytes} {size : UInt32}
  (hsize : size.toNat ≤ data.length)
include hsize

theorem fcdBlFlashWrite_named :
    ∃ (result : Int) (t : σ) (ts : List Transaction),
      Program.Runs h (fcdBlFlashWrite host (some dev) data size) s result t
        (ts.flatMap Transaction.events) ∧
      Named dev size (ranging h dev s).1 (fun start => (addressing h dev s start).1) result ts ∧
      WriteNamed dev data (ranging h dev s).1 result ts := by
  obtain ⟨result, t, ts, hrun, hp⟩ := fcdBlFlashWrite_pass h s host dev hsize
  refine ⟨result, t, ts, hrun, hp.named (fun start k x hx => ?_) (fun start k x r hr => ?_),
    writeNamed_of_pass hp⟩
  · by_contra hfail
    exact absurd (judgeWrite_eq_some.mpr ⟨Bool.eq_false_iff.mpr hfail, rfl⟩) (by simp [hx])
  · exact .inl (Int.le_of_eq (judgeWrite_eq_some.mp hr).2)

theorem fcdBlFlashVerify_named :
    ∃ (result : Int) (t : σ) (ts : List Transaction),
      Program.Runs h (fcdBlFlashVerify host (some dev) data size) s result t
        (ts.flatMap Transaction.events) ∧
      Named dev size (ranging h dev s).1 (fun start => (addressing h dev s start).1) result ts ∧
      VerifyNamed dev data (ranging h dev s).1 result ts := by
  obtain ⟨result, t, ts, hrun, hp⟩ := fcdBlFlashVerify_pass h s host dev hsize
  refine ⟨result, t, ts, hrun, hp.named (fun start k x hx => ?_) (fun start k x r hr => ?_),
    verifyNamed_of_pass hp⟩
  · exact succeeded_iff.mpr ⟨_, judgeRead_eq_none.mp hx⟩
  · rcases judgeRead_codes hr with rfl | rfl
    · exact .inl (by decide)
    · exact .inr (by decide)

end

/-- The codes of a write and of a verification of one image, with the dongle
behaving alike towards both. -/
theorem flash_codes (h : Host σ) (s : σ) (host : Endian) (dev : Fcd) (data : Bytes) (size : UInt32)
    (hsize : size.toNat ≤ data.length) :
    ∃ (w v : Int) (t u : σ) (ws vs : List Transaction),
      Program.Runs h (fcdBlFlashWrite host (some dev) data size) s w t
        (ws.flatMap Transaction.events) ∧
      Program.Runs h (fcdBlFlashVerify host (some dev) data size) s v u
        (vs.flatMap Transaction.events) ∧
      Named dev size (ranging h dev s).1 (fun start => (addressing h dev s start).1) w ws ∧
      Named dev size (ranging h dev s).1 (fun start => (addressing h dev s start).1) v vs ∧
      ((-4 ≤ w ∧ w ≤ -1) ∨ (-4 ≤ v ∧ v ≤ -1) → w = v) ∧
      WriteNamed dev data (ranging h dev s).1 w ws ∧
      VerifyNamed dev data (ranging h dev s).1 v vs ∧ Listed w ∧ Listed v := by
  obtain ⟨w, t, ws, hwrite, hw, hwc⟩ := fcdBlFlashWrite_named h s host dev hsize
  obtain ⟨v, u, vs, hverify, hv, hvc⟩ := fcdBlFlashVerify_named h s host dev hsize
  refine ⟨w, v, t, u, ws, vs, hwrite, hverify, hw, hv, ?_, hwc, hvc, ?_, ?_⟩
  · intro hearly
    rcases hearly with hc | hc
    · exact hw.agree hv hc
    · exact (hv.agree hw hc).symm
  · have := hwc.codes
    exact listed_of_range (by omega) (by omega)
  · have := hvc.codes
    exact listed_of_range (by omega) (by omega)

/-- With a dongle that goes away after its range was read, both fail alike. -/
theorem flash_codes_gone :
    let h := Link.host (Boot.serve id)
    let s : Link Boot := ⟨oneBlock, [], [none, none, none, some true]⟩
    ∃ (w v : Int) (t u : Link Boot) (ws vs : List Transaction),
      Program.Runs h (fcdBlFlashWrite .little (some ⟨0, "dongle", 1⟩) (List.replicate 48 7) 48) s w
        t (ws.flatMap Transaction.events) ∧
      Program.Runs h (fcdBlFlashVerify .little (some ⟨0, "dongle", 1⟩) (List.replicate 48 7) 48) s
        v u (vs.flatMap Transaction.events) ∧
      ((-4 ≤ w ∧ w ≤ -1) ∨ (-4 ≤ v ∧ v ≤ -1) → w = v) ∧ Listed w ∧ Listed v := by
  obtain ⟨w, v, t, u, ws, vs, hwrite, hverify, -, -, hagree, -, -, hw, hv⟩ :=
    flash_codes (Link.host (Boot.serve id)) ⟨oneBlock, [], [none, none, none, some true]⟩ .little
      ⟨0, "dongle", 1⟩ (List.replicate 48 7) 48 (by decide)
  exact ⟨w, v, t, u, ws, vs, hwrite, hverify, hagree, hw, hv⟩

end Libfcd.Proofs
