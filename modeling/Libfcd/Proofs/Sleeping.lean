import Libfcd.Model.Common

namespace Libfcd.Proofs
open Interaction Memory Model

variable {σ : Type}

/-- The arguments given to `usleep`, in order. -/
def naps (es : List Happening) : List UInt32 :=
  es.filterMap fun
    | ⟨.usleep us, _⟩ => some us
    | _ => none

def nap (us : UInt32) : Happening := ⟨.usleep us, ()⟩

@[simp] theorem naps_append (xs ys : List Happening) : naps (xs ++ ys) = naps xs ++ naps ys := by
  simp [naps]

@[simp] theorem naps_replicate (n : Nat) (us : UInt32) :
    naps (List.replicate n (nap us)) = List.replicate n us := by
  simp [naps, nap]

@[simp] theorem naps_nap (us : UInt32) : naps [nap us] = [us] := rfl

/-- One round of the loop: a second, in two halves. -/
def sleepSecond : Hid (Option Empty) := do
  usleep (500 * shortSleepFactor)
  usleep (500 * shortSleepFactor)
  pure none

/-- A round takes 1000 off the counter, so it runs once for each whole second. -/
theorem msSleepHead_run {n : Nat} {t : UInt32} (hn : t.toNat ≤ n) :
    (msSleepHead.visits n t).length = t.toNat / 1000 ∧
      (msSleepHead.last n t).toNat = t.toNat % 1000 := by
  induction n generalizing t with
  | zero =>
    have h0 : t.toNat = 0 := Nat.le_zero.mp hn
    simp [LoopHead.visits, LoopHead.last, h0]
  | succ n ih =>
    by_cases ht : t ≥ 1000
    · have htest : msSleepHead.test t = true := decide_eq_true ht
      have hle : 1000 ≤ t.toNat := UInt32.le_iff_toNat_le.mp ht
      have hsub : (t - 1000).toNat = t.toNat - 1000 := UInt32.toNat_sub_of_le _ _ ht
      have hrest := ih (t := t - 1000) (by omega)
      have hstep : msSleepHead.step t = t - 1000 := rfl
      simp only [LoopHead.visits, LoopHead.last, htest, if_true, List.length_cons, hstep]
      omega
    · have htest : msSleepHead.test t = false := decide_eq_false ht
      have hlt : t.toNat < 1000 := UInt32.lt_iff_toNat_lt.mp (UInt32.not_le.mp ht)
      simp only [LoopHead.visits, LoopHead.last, htest, Bool.false_eq_true, if_false,
        List.length_nil]
      omega

theorem sleepSeconds_runs (h : Host σ) (s : σ) (ts : List UInt32) :
    ∃ t, Program.Runs h (Program.scan (fun _ => sleepSecond) ts) s none t
      (List.replicate (2 * ts.length) (nap (500 * shortSleepFactor))) := by
  induction ts generalizing s with
  | nil => exact ⟨s, .done h none s⟩
  | cons t ts ih =>
    let us : UInt32 := 500 * shortSleepFactor
    have hround : Program.Runs h sleepSecond s none
        (h (.usleep us) (h (.usleep us) s).2).2 [nap us, nap us] := .call (.call (.done h _ _))
    obtain ⟨u, hrest⟩ := ih (h (.usleep us) (h (.usleep us) s).2).2
    refine ⟨u, ?_⟩
    rw [Program.scan]
    exact hround.bind hrest

/-- The halves of each second and the rest, which is less than one. -/
theorem msSleep_runs (h : Host σ) (s : σ) (ms : UInt32) :
    ∃ t rest, rest.toNat = ms.toNat % 1000 ∧ Program.Runs h (msSleep ms) s () t
      (List.replicate (2 * (ms.toNat / 1000)) (nap (500 * shortSleepFactor)) ++
        [nap (rest * shortSleepFactor)]) := by
  obtain ⟨hlength, hlast⟩ := msSleepHead_run (Nat.le_refl ms.toNat)
  obtain ⟨u, hseconds⟩ := sleepSeconds_runs h s (msSleepHead.visits ms.toNat ms)
  rw [hlength] at hseconds
  let rest := msSleepHead.last ms.toNat ms
  refine ⟨(h (.usleep (rest * shortSleepFactor)) u).2, rest, hlast, ?_⟩
  have hloop := msSleepHead.loop_runs (b := ms) trivial (Nat.le_refl ms.toNat) hseconds
  exact hloop.bind (.call (.done h _ _))

/-- The product for what is left of a second is exact. -/
theorem toNat_mul_factor {t : UInt32} (ht : t.toNat < 1000) :
    (t * shortSleepFactor).toNat = t.toNat * shortSleepFactor.toNat := by
  have hfactor : shortSleepFactor.toNat = 1000 := rfl
  rw [UInt32.toNat_mul, hfactor]
  exact Nat.mod_eq_of_lt (by omega)

/-- Every sleep comes to an end after exactly its time, in pieces that are each
shorter than a second and that no multiplication has cut short. -/
theorem msSleep_exact (h : Host σ) (s : σ) (ms : UInt32) :
    ∃ (t : σ) (rest : UInt32) (es : List Happening), Program.Runs h (msSleep ms) s () t es ∧
      es = List.replicate (2 * (ms.toNat / 1000)) (nap (500 * shortSleepFactor)) ++
        [nap (rest * shortSleepFactor)] ∧
      (500 * shortSleepFactor).toNat = 500 * shortSleepFactor.toNat ∧
      (rest * shortSleepFactor).toNat = rest.toNat * shortSleepFactor.toNat ∧
      (∀ us ∈ naps es, us.toNat < 1000000) ∧
      ((naps es).map UInt32.toNat).sum = 1000 * ms.toNat := by
  obtain ⟨t, rest, hrest, hrun⟩ := msSleep_runs h s ms
  have hhalf : (500 * shortSleepFactor).toNat = 500000 := rfl
  have hfactor : shortSleepFactor.toNat = 1000 := rfl
  have hlt : rest.toNat < 1000 := by omega
  have hmul := toNat_mul_factor hlt
  refine ⟨t, rest, _, hrun, rfl, rfl, hmul, ?_, ?_⟩
  · intro us hus
    rw [naps_append, naps_replicate, naps_nap, List.mem_append, List.mem_replicate,
      List.mem_singleton] at hus
    rcases hus with ⟨-, rfl⟩ | rfl
    · omega
    · rw [hmul, hfactor]
      omega
  · rw [naps_append, naps_replicate, naps_nap, List.map_append, List.map_replicate,
      List.map_singleton, List.sum_append, List.sum_replicate, List.sum_singleton, hhalf, hmul,
      hfactor, Nat.nsmul_eq_mul]
    omega

end Libfcd.Proofs
