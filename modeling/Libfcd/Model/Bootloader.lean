import Libfcd.Model.Common

namespace Libfcd.Model
open Interaction Memory

def fcdCmdEraseApplication : UInt8 := 24
def fcdCmdSetByteAddr : UInt8 := 25
def fcdCmdGetByteAddrRange : UInt8 := 26
def fcdCmdWriteBlock : UInt8 := 27
def fcdCmdReadBlock : UInt8 := 28

def fcdBlEraseApplication (dev : Option Fcd) : Hid Status :=
  fcdSet dev fcdCmdEraseApplication none 0

def fcdBlSetAddress (host : Endian) (dev : Option Fcd) (addr : UInt32) : Hid Status :=
  let address := convertLeU32 host addr
  fcdSet dev fcdCmdSetByteAddr (some (store32 host address)) 4

/-- `start` and `end`, which are stored through the pointers that are not NULL
when the exchange succeeds, and only then. -/
def fcdBlGetAddressRange (host : Endian) (dev : Option Fcd) :
    Hid (Except Errno (UInt32 × UInt32)) := do
  match ← fcdGet dev fcdCmdGetByteAddrRange (some (Buffer.fresh 8)) 8 with
  | (.error e, _) => pure (.error e)
  | (.ok (), range) => do
    let range ← .expect (range.bind Buffer.written)
    pure (.ok (convertLeU32 host (load32 host (range.take 4)),
      convertLeU32 host (load32 host (range.drop 4))))

def fcdBlReadBlock (dev : Option Fcd) (block : Option Buffer) :
    Hid (Status × Option Buffer) :=
  fcdGet dev fcdCmdReadBlock block 48

/-- The data of a block starts one byte further on than other payloads. -/
def fcdBlWriteBlock (dev : Option Fcd) (block : Option Bytes) : Hid Status := do
  let (result, _) ← fcdIo dev fcdCmdWriteBlock 1 block 48 none 0
  pure result

/-- A whole number of blocks lies between the counter and the end of flash. -/
structure Aligned (addr stop : UInt32) : Prop where
  le : addr.toNat ≤ stop.toNat
  blocks : 48 ∣ stop.toNat - addr.toNat

theorem Aligned.next {addr stop : UInt32} (h : Aligned addr stop) (hlt : addr < stop) :
    (addr + 48).toNat = addr.toNat + 48 ∧ Aligned (addr + 48) stop := by
  obtain ⟨k, hk⟩ := h.blocks
  have hn := UInt32.lt_iff_toNat_lt.mp hlt
  have hs := stop.toNat_lt
  have hadd : (addr + 48).toNat = addr.toNat + 48 := by
    rw [UInt32.toNat_add]
    exact Nat.mod_eq_of_lt (by simp; omega)
  refine ⟨hadd, by omega, ⟨k - 1, by omega⟩⟩

/-- `for (addr = start; addr < end; addr += 48)`, in `unsigned int` arithmetic. -/
def blockHead (stop : UInt32) : LoopHead UInt32 where
  test addr := addr < stop
  step addr := addr + 48
  inv addr := Aligned addr stop
  fuel addr := stop.toNat - addr.toNat
  falls addr h ht := by
    have hlt : addr < stop := by simpa using ht
    obtain ⟨hadd, hn⟩ := h.next hlt
    have := UInt32.lt_iff_toNat_lt.mp hlt
    exact ⟨hn, by omega⟩

/-- What the sanity check of the range leaves. -/
theorem aligned_of_sane {start stop : UInt32}
    (h : ¬ (start ≥ stop ∨ (stop - start) % 48 ≠ 0)) : Aligned start stop := by
  simp only [ge_iff_le, ne_eq, not_or, not_not] at h
  have hle := UInt32.lt_iff_toNat_lt.mp (UInt32.not_le.mp h.1)
  have hmod := congrArg UInt32.toNat h.2
  rw [UInt32.toNat_mod, UInt32.toNat_sub_of_le _ _ (UInt32.le_iff_toNat_le.mpr (by omega))] at hmod
  exact ⟨by omega, Nat.dvd_of_mod_eq_zero (by simpa using hmod)⟩

/-- The bytes from `data+addr` to the end of the image. -/
def pointer (data : Bytes) (addr : UInt32) : Bytes := data.drop addr.toNat

def fcdBlFlashWrite (host : Endian) (dev : Option Fcd) (data : Bytes) (size : UInt32) :
    Hid Int := do
  match ← fcdBlGetAddressRange host dev with
  | .error _ => pure (-1)
  | .ok (start, stop) =>
    if h : start ≥ stop ∨ (stop - start) % 48 ≠ 0 then pure (-2)
    else if stop > size then pure (-3)
    else do
      match ← fcdBlSetAddress host dev start with
      | .error _ => pure (-4)
      | .ok () => do
        let left ← (blockHead stop).loop (fun addr => do
          match ← fcdBlWriteBlock dev (some (pointer data addr)) with
          | .error _ => pure (some (-5))
          | .ok () => pure none)
          (stop.toNat - start.toNat) start (aligned_of_sane h) (Nat.le_refl _)
        match left with
        | .inl result => pure result
        | .inr _ => pure 0

/-- Bytes compared in order: the difference at the first place they differ. -/
def memcmp : Bytes → Bytes → Int
  | x :: xs, y :: ys => if x = y then memcmp xs ys else (x.toNat : Int) - y.toNat
  | _, _ => 0

theorem memcmp_eq_zero {xs ys : Bytes} (h : xs.length = ys.length) :
    memcmp xs ys = 0 ↔ xs = ys := by
  induction xs generalizing ys with
  | nil => cases ys <;> simp_all [memcmp]
  | cons x xs ih =>
    cases ys with
    | nil => simp at h
    | cons y ys =>
      have hl : xs.length = ys.length := by simpa using h
      by_cases he : x = y
      · simp [memcmp, he, ih hl]
      · have hne : x.toNat ≠ y.toNat := fun hn => he (UInt8.toNat_inj.mp hn)
        simp only [memcmp, he, if_false, List.cons.injEq, false_and, iff_false]
        omega

def fcdBlFlashVerify (host : Endian) (dev : Option Fcd) (data : Bytes) (size : UInt32) :
    Hid Int := do
  match ← fcdBlGetAddressRange host dev with
  | .error _ => pure (-1)
  | .ok (start, stop) =>
    if h : start ≥ stop ∨ (stop - start) % 48 ≠ 0 then pure (-2)
    else if stop > size then pure (-3)
    else do
      match ← fcdBlSetAddress host dev start with
      | .error _ => pure (-4)
      | .ok () => do
        let left ← (blockHead stop).loop (fun addr => do
          match ← fcdBlReadBlock dev (some (Buffer.fresh 48)) with
          | (.error _, _) => pure (some (-6))
          | (.ok (), buffer) => do
            let buffer ← .expect (buffer.bind Buffer.written)
            let image ← .expect ((Buffer.slice ((pointer data addr).map some) 0 48).bind
              Buffer.written)
            if memcmp buffer image ≠ 0 then pure (some 1)
            else pure none)
          (stop.toNat - start.toNat) start (aligned_of_sane h) (Nat.le_refl _)
        match left with
        | .inl result => pure result
        | .inr _ => pure 0

end Libfcd.Model
