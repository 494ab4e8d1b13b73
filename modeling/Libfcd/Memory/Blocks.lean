namespace Libfcd.Memory

variable {α : Type}

/-- `n` consecutive blocks of `w` elements each, from place `a` on. -/
def blocksOf (w : Nat) (xs : List α) (a n : Nat) : List (List α) :=
  (List.range n).map (fun k => xs.extract (a + w * k) (a + w * k + w))

theorem length_blocksOf (w : Nat) (xs : List α) (a n : Nat) : (blocksOf w xs a n).length = n := by
  simp [blocksOf]

theorem blocksOf_succ (w : Nat) (xs : List α) (a n : Nat) :
    blocksOf w xs a (n + 1) = xs.extract a (a + w) :: blocksOf w xs (a + w) n := by
  simp only [blocksOf, List.range_succ_eq_map, List.map_cons, List.map_map, Nat.mul_zero,
    Nat.add_zero]
  congr 1
  apply List.map_congr_left
  intro k _
  simp only [Function.comp_apply, Nat.mul_succ, Nat.succ_eq_add_one]
  have hplace : a + (w * k + w) = a + w + w * k := by omega
  rw [hplace]

theorem take_blocksOf (w : Nat) (xs : List α) (a : Nat) {k n : Nat} (h : k ≤ n) :
    (blocksOf w xs a n).take k = blocksOf w xs a k := by
  simp [blocksOf, ← List.map_take, List.take_range, Nat.min_eq_left h]

theorem length_of_mem_blocksOf {w : Nat} {xs : List α} {a n : Nat} (h : a + w * n ≤ xs.length)
    {block : List α} (hb : block ∈ blocksOf w xs a n) : block.length = w := by
  obtain ⟨k, hk, rfl⟩ := List.mem_map.mp hb
  have hle : w * k + w ≤ w * n := by
    rw [← Nat.mul_succ]
    exact Nat.mul_le_mul_left w (List.mem_range.mp hk)
  simp
  omega

/-- Consecutive blocks put together are the stretch they were cut from. -/
theorem flatten_blocksOf (w : Nat) (xs : List α) (a n : Nat) :
    (blocksOf w xs a n).flatten = xs.extract a (a + w * n) := by
  induction n generalizing a with
  | zero => simp [blocksOf]
  | succ n ih =>
    rw [blocksOf_succ, List.flatten_cons, ih]
    simp only [List.extract_eq_take_drop, Nat.add_sub_cancel_left]
    rw [Nat.mul_succ, Nat.add_comm (w * n) w, List.take_add, List.drop_drop]

end Libfcd.Memory
