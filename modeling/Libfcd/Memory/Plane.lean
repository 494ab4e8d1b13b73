import Mathlib.Data.List.Basic

namespace Libfcd.Memory

variable {α : Type}

/-- Storage without bounds, one element an address. -/
abbrev Plane (α : Type) := Nat → α

namespace Plane

/-- Store elements from `a` on. -/
def overwrite (m : Plane α) (a : Nat) (xs : List α) : Plane α :=
  fun x => if a ≤ x then (xs[x - a]?).getD (m x) else m x

/-- The `n` elements from `a` on. -/
def window (m : Plane α) (a n : Nat) : List α := (List.range n).map (fun i => m (a + i))

/-- The stretch from `a` to `b` is that of `xs`. -/
def Holds (m : Plane α) (xs : List α) (a b : Nat) : Prop := ∀ x, a ≤ x → x < b → xs[x]? = some (m x)

@[simp] theorem length_window (m : Plane α) (a n : Nat) : (m.window a n).length = n := by
  simp [window]

@[simp] theorem overwrite_nil (m : Plane α) (a : Nat) : m.overwrite a [] = m := by
  funext x
  simp [overwrite]

theorem overwrite_outside (m : Plane α) {a : Nat} {xs : List α} {x : Nat}
    (hx : x < a ∨ a + xs.length ≤ x) : m.overwrite a xs x = m x := by
  rcases hx with hx | hx
  · simp [overwrite, Nat.not_le.mpr hx]
  · have hnone : xs[x - a]? = none := List.getElem?_eq_none (by omega)
    simp [overwrite, hnone]

theorem overwrite_inside (m : Plane α) (xs : List α) {a x : Nat} (ha : a ≤ x)
    (hx : x < a + xs.length) : xs[x - a]? = some (m.overwrite a xs x) := by
  have hlt : x - a < xs.length := by omega
  simp [overwrite, ha, List.getElem?_eq_getElem hlt]

/-- Two stores in a row, the second right behind the first, are one. -/
theorem overwrite_append (m : Plane α) (a : Nat) (xs ys : List α) :
    (m.overwrite a xs).overwrite (a + xs.length) ys = m.overwrite a (xs ++ ys) := by
  funext x
  by_cases hxs : x < a + xs.length
  · rw [overwrite_outside _ (.inl hxs)]
    by_cases ha : a ≤ x
    · have hin : x - a < xs.length := by omega
      simp only [overwrite, ha, if_true, List.getElem?_append_left hin]
    · simp only [overwrite, ha, if_false]
  · have ha : a ≤ x := by omega
    have hplace : x - (a + xs.length) = x - a - xs.length := by omega
    rw [overwrite, if_pos (by omega), overwrite_outside m (.inr (by omega))]
    rw [overwrite, if_pos ha, List.getElem?_append_right (by omega), hplace]

/-- A plane holds whatever was last stored there. -/
theorem holds_overwrite (m : Plane α) {xs : List α} {a b : Nat} (hb : b ≤ xs.length) :
    (m.overwrite a (xs.extract a b)).Holds xs a b := by
  intro x ha hx
  have hlen : (xs.extract a b).length = b - a := by simp; omega
  have hin := m.overwrite_inside (xs.extract a b) ha (by omega)
  rw [← hin]
  simp only [List.extract_eq_take_drop, List.getElem?_take, List.getElem?_drop]
  rw [if_pos (by omega), Nat.add_sub_cancel' ha]

theorem holds_split (m : Plane α) (xs : List α) {a b c : Nat} (hab : a ≤ b) (hbc : b ≤ c) :
    m.Holds xs a c ↔ m.Holds xs a b ∧ m.Holds xs b c := by
  constructor
  · intro h
    exact ⟨fun x ha hx => h x ha (by omega), fun x hb hx => h x (by omega) hx⟩
  · rintro ⟨hl, hr⟩ x ha hx
    rcases Nat.lt_or_ge x b with hxb | hxb
    · exact hl x ha hxb
    · exact hr x hxb hx

/-- A stretch holds exactly when it reads the same. -/
theorem holds_iff_window (m : Plane α) (xs : List α) {a b : Nat} (hab : a ≤ b)
    (hb : b ≤ xs.length) : m.Holds xs a b ↔ m.window a (b - a) = xs.extract a b := by
  have hlen : (xs.extract a b).length = b - a := by simp; omega
  have hget : ∀ i, i < b - a → (xs.extract a b)[i]? = xs[a + i]? := by
    intro i hi
    rw [List.extract_eq_take_drop, List.getElem?_take, if_pos hi, List.getElem?_drop]
  constructor
  · intro h
    refine List.ext_getElem? (fun i => ?_)
    by_cases hi : i < b - a
    · rw [hget i hi, h (a + i) (by omega) (by omega)]
      simp [window, hi]
    · rw [List.getElem?_eq_none (by simp; omega), List.getElem?_eq_none (by omega)]
  · intro h x ha hx
    have hi : x - a < b - a := by omega
    have := congrArg (·[x - a]?) h
    simp only [hget _ hi, Nat.add_sub_cancel' ha] at this
    rw [← this]
    simp [window, hi, Nat.add_sub_cancel' ha]

end Plane

end Libfcd.Memory
