import Libfcd.Model.Strings
import Mathlib.Tactic.IntervalCases

namespace Libfcd.Proofs
open Memory Model

theorem digitOf_digitChar : ∀ d, d < 16 → digitOf d.digitChar = some d := by decide

/-- The digits of a number are read back, on top of what was read before them. -/
theorem readDigits_toDigits_append {b : Nat} (hb : 1 < b) (hb' : b ≤ 16) (n : Nat)
    (cs : List Char) (acc : Option Nat) (hacc : acc.getD 0 = 0) :
    readDigits b (Nat.toDigits b n ++ cs) acc = readDigits b cs (some n) := by
  induction n using Nat.strong_induction_on generalizing cs with
  | _ n ih =>
    by_cases hn : n < b
    · have hd : digitOf n.digitChar = some n := digitOf_digitChar n (by omega)
      simp [Nat.toDigits_of_lt_base hn, readDigits, hd, hn, hacc]
    · have hq : n / b < n := Nat.div_lt_self (by omega) hb
      have hr : n % b < b := Nat.mod_lt n (by omega)
      have hd : digitOf (n % b).digitChar = some (n % b) := digitOf_digitChar _ (by omega)
      rw [Nat.toDigits_of_base_le hb (by omega), List.append_assoc, ih (n / b) hq]
      simp [readDigits, hd, hr, Nat.div_add_mod']

theorem readDigits_toDigits {b : Nat} (hb : 1 < b) (hb' : b ≤ 16) (n : Nat) (acc : Option Nat)
    (hacc : acc.getD 0 = 0) : readDigits b (Nat.toDigits b n) acc = some n := by
  have h := readDigits_toDigits_append hb hb' n [] acc hacc
  rwa [List.append_nil] at h

/-- Zeros in front change nothing. -/
theorem readDigits_zeros {b : Nat} (hb : 1 < b) (k : Nat) (cs : List Char) {n : Nat}
    (h : ∀ acc : Option Nat, acc.getD 0 = 0 → readDigits b cs acc = some n) (acc : Option Nat)
    (hacc : acc.getD 0 = 0) : readDigits b (List.replicate k '0' ++ cs) acc = some n := by
  induction k generalizing acc with
  | zero => exact h acc hacc
  | succ k ih =>
    have hd : digitOf '0' = some 0 := rfl
    have hb0 : 0 < b := by omega
    simp only [List.replicate_succ, List.cons_append, readDigits, hd, hacc, if_pos hb0]
    exact ih _ (by simp)

/-- A number in hexadecimal is read back. -/
theorem readDigits_hex (width n : Nat) : readDigits 16 (hex width n).toList none = some n := by
  rw [hex, String.toList_ofList, List.leftpad]
  exact readDigits_zeros (by decide) _ _ (readDigits_toDigits (by decide) (by decide) n) none rfl

theorem hex_injective {width m n : Nat} (h : hex width m = hex width n) : m = n := by
  have hread := readDigits_hex width m
  rw [h, readDigits_hex width n] at hread
  exact (Option.some.inj hread).symm

theorem length_hex {width n : Nat} (hw : 0 < width) (hn : n < 16 ^ width) :
    (hex width n).toList.length = width := by
  have hlen := (Nat.length_toDigits_le_iff (n := n) (by decide : 1 < 16) hw).mpr hn
  rw [hex, String.toList_ofList, List.length_leftpad]
  exact Nat.max_eq_left hlen

end Libfcd.Proofs
