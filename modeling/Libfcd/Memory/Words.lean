import Libfcd.Memory.Buffer
import Mathlib.Tactic.IntervalCases
import Mathlib.Tactic.Positivity

namespace Libfcd.Memory

/-- The low `n` bytes of `v`, least significant first. -/
def leBytes : Nat → Nat → Bytes
  | 0, _ => []
  | n + 1, v => UInt8.ofNat v :: leBytes n (v / 256)

/-- The number written by bytes, least significant first. -/
def ofLeBytes : Bytes → Nat
  | [] => 0
  | x :: xs => x.toNat + 256 * ofLeBytes xs

@[simp] theorem length_leBytes (n v : Nat) : (leBytes n v).length = n := by
  induction n generalizing v with
  | zero => rfl
  | succ n ih => simp [leBytes, ih]

theorem ofLeBytes_leBytes (n v : Nat) : ofLeBytes (leBytes n v) = v % 256 ^ n := by
  induction n generalizing v with
  | zero => simp [leBytes, ofLeBytes, Nat.mod_one]
  | succ n ih =>
    simp only [leBytes, ofLeBytes, ih, UInt8.toNat_ofNat', Nat.reducePow]
    rw [Nat.pow_succ', Nat.mod_mul]

theorem leBytes_ofLeBytes (xs : Bytes) : leBytes xs.length (ofLeBytes xs) = xs := by
  induction xs with
  | nil => rfl
  | cons x xs ih =>
    have hx := x.toNat_lt
    have hd : (x.toNat + 256 * ofLeBytes xs) / 256 = ofLeBytes xs := by omega
    simp only [List.length_cons, leBytes, ofLeBytes, hd, ih, List.cons.injEq, and_true]
    apply UInt8.toNat_inj.mp
    simp

theorem ofLeBytes_lt (xs : Bytes) : ofLeBytes xs < 256 ^ xs.length := by
  induction xs with
  | nil => simp [ofLeBytes]
  | cons x xs ih =>
    have hx := x.toNat_lt
    rw [List.length_cons, Nat.pow_succ, ofLeBytes]
    omega

/-- Two's complement in `n` bytes, least significant first. -/
def leInt (n : Nat) (v : Int) : Bytes := leBytes n (v % (256 ^ n : Nat)).toNat

/-- The integer written in two's complement, least significant byte first. -/
def ofLeInt (xs : Bytes) : Int := (ofLeBytes xs : Int).bmod (256 ^ xs.length)

@[simp] theorem length_leInt (n : Nat) (v : Int) : (leInt n v).length = n := by simp [leInt]

theorem ofLeInt_leInt (n : Nat) (v : Int) : ofLeInt (leInt n v) = v.bmod (256 ^ n) := by
  have hpos : ((256 ^ n : Nat) : Int) ≠ 0 := by positivity
  have hnn := Int.emod_nonneg v hpos
  rw [ofLeInt, length_leInt, leInt, ofLeBytes_leBytes, Int.natCast_emod, Int.toNat_of_nonneg hnn,
    Int.emod_emod_of_dvd _ (Int.dvd_refl _), Int.emod_bmod]

/-- Byte order of the integers in a host's memory. -/
inductive Endian where
  | little
  | big
  deriving DecidableEq, Repr

/-- Bytes in memory order, put in order of significance, and back. -/
def Endian.order : Endian → Bytes → Bytes
  | .little, xs => xs
  | .big, xs => xs.reverse

@[simp] theorem Endian.order_order (e : Endian) (xs : Bytes) : e.order (e.order xs) = xs := by
  cases e <;> simp [order]

@[simp] theorem Endian.length_order (e : Endian) (xs : Bytes) :
    (e.order xs).length = xs.length := by
  cases e <;> simp [order]

/-- The bytes a host keeps a 16-bit integer in. -/
def store16 (e : Endian) (v : UInt16) : Bytes := e.order (leBytes 2 v.toNat)

def load16 (e : Endian) (xs : Bytes) : UInt16 := UInt16.ofNat (ofLeBytes (e.order xs))

/-- The bytes a host keeps a 32-bit integer in. -/
def store32 (e : Endian) (v : UInt32) : Bytes := e.order (leBytes 4 v.toNat)

def load32 (e : Endian) (xs : Bytes) : UInt32 := UInt32.ofNat (ofLeBytes (e.order xs))

theorem load16_store16 (e : Endian) (v : UInt16) : load16 e (store16 e v) = v := by
  apply UInt16.toNat_inj.mp
  have := v.toNat_lt
  simp [load16, store16, ofLeBytes_leBytes]

theorem load32_store32 (e : Endian) (v : UInt32) : load32 e (store32 e v) = v := by
  apply UInt32.toNat_inj.mp
  have := v.toNat_lt
  simp [load32, store32, ofLeBytes_leBytes]

/-- Exchange the two bytes of a 16-bit integer. -/
def swap16 (v : UInt16) : UInt16 := ((v &&& 0xff00) >>> 8) ||| ((v &&& 0x00ff) <<< 8)

/-- Exchange the four bytes of a 32-bit integer. -/
def swap32 (v : UInt32) : UInt32 :=
  ((v &&& 0xff000000) >>> 24) ||| ((v &&& 0x00ff0000) >>> 8) |||
    ((v &&& 0x0000ff00) <<< 8) ||| ((v &&& 0x000000ff) <<< 24)

/-- A byte of a number, as a slice of its bits. -/
theorem ofNat_eq_extract {w : Nat} (x : BitVec w) (k : Nat) :
    UInt8.ofNat (x.toNat / 2 ^ k) = ⟨x.extractLsb' k 8⟩ := by
  apply UInt8.toNat_inj.mp
  rw [UInt8.toNat_ofNat', ← UInt8.toNat_toBitVec, BitVec.extractLsb'_toNat,
    Nat.shiftRight_eq_div_pow]

theorem leBytes_16 (v : UInt16) : leBytes 2 v.toNat =
    [⟨v.toBitVec.extractLsb' 0 8⟩, ⟨v.toBitVec.extractLsb' 8 8⟩] := by
  simp only [leBytes, ← ofNat_eq_extract]
  simp

theorem leBytes_32 (v : UInt32) : leBytes 4 v.toNat =
    [⟨v.toBitVec.extractLsb' 0 8⟩, ⟨v.toBitVec.extractLsb' 8 8⟩,
      ⟨v.toBitVec.extractLsb' 16 8⟩, ⟨v.toBitVec.extractLsb' 24 8⟩] := by
  simp only [leBytes, ← ofNat_eq_extract]
  simp [Nat.div_div_eq_div_mul]

theorem leBytes_swap16 (v : UInt16) :
    leBytes 2 (swap16 v).toNat = (leBytes 2 v.toNat).reverse := by
  simp only [leBytes_16, List.reverse_cons, List.reverse_nil, List.nil_append, List.cons_append,
    List.cons.injEq, and_true, UInt8.ofBitVec.injEq]
  refine ⟨?_, ?_⟩
  all_goals
    ext i hi
    simp only [swap16, BitVec.getElem_extractLsb']
    interval_cases i <;> simp

theorem leBytes_swap32 (v : UInt32) :
    leBytes 4 (swap32 v).toNat = (leBytes 4 v.toNat).reverse := by
  simp only [leBytes_32, List.reverse_cons, List.reverse_nil, List.nil_append, List.cons_append,
    List.cons.injEq, and_true, UInt8.ofBitVec.injEq]
  refine ⟨?_, ?_, ?_, ?_⟩
  all_goals
    ext i hi
    simp only [swap32, BitVec.getElem_extractLsb']
    interval_cases i <;> simp

theorem store16_load16 (e : Endian) {xs : Bytes} (h : xs.length = 2) :
    store16 e (load16 e xs) = xs := by
  have hl : (e.order xs).length = 2 := by simp [h]
  have hb := ofLeBytes_lt (e.order xs)
  rw [hl] at hb
  have hv : (load16 e xs).toNat = ofLeBytes (e.order xs) := by simpa [load16] using hb
  rw [store16, hv, ← hl, leBytes_ofLeBytes, Endian.order_order]

theorem store32_load32 (e : Endian) {xs : Bytes} (h : xs.length = 4) :
    store32 e (load32 e xs) = xs := by
  have hl : (e.order xs).length = 4 := by simp [h]
  have hb := ofLeBytes_lt (e.order xs)
  rw [hl] at hb
  have hv : (load32 e xs).toNat = ofLeBytes (e.order xs) := by simpa [load32] using hb
  rw [store32, hv, ← hl, leBytes_ofLeBytes, Endian.order_order]

/-- A 16-bit register of either signedness, as bytes. -/
theorem leBytes_int16 (i : Int16) : leBytes 2 i.toUInt16.toNat = leInt 2 i.toInt := by
  have hlt := i.toUInt16.toNat_lt
  have hmod : (i.toInt % (256 ^ 2 : Nat)).toNat = i.toUInt16.toNat := by
    have hpow : (256 ^ 2 : Nat) = 2 ^ 16 := by norm_num
    rw [← Int16.toInt_toBitVec, BitVec.toInt_eq_toNat_bmod, hpow, Int.bmod_emod]
    exact congrArg Int.toNat (Int.emod_eq_of_lt (by omega) (by exact_mod_cast hlt))
  rw [leInt, hmod]

theorem toInt_load16 {xs : Bytes} (h : xs.length = 2) :
    (load16 .little xs).toInt16.toInt = ofLeInt xs := by
  have hlt := ofLeBytes_lt xs
  rw [h] at hlt
  have hv : (load16 .little xs).toNat = ofLeBytes xs := by
    simpa [load16, Endian.order] using hlt
  rw [ofLeInt, h, ← hv, ← Int16.toInt_toBitVec, BitVec.toInt_eq_toNat_bmod]
  rfl

/-- Swapping before a store of the other byte order gives the same bytes. -/
theorem store16_big_swap16 (v : UInt16) : store16 .big (swap16 v) = store16 .little v := by
  simp [store16, Endian.order, leBytes_swap16]

theorem store32_big_swap32 (v : UInt32) : store32 .big (swap32 v) = store32 .little v := by
  simp [store32, Endian.order, leBytes_swap32]

theorem store16_little_swap16 (v : UInt16) : store16 .little (swap16 v) = store16 .big v := by
  simp [store16, Endian.order, leBytes_swap16]

theorem store32_little_swap32 (v : UInt32) : store32 .little (swap32 v) = store32 .big v := by
  simp [store32, Endian.order, leBytes_swap32]

/-- Swapping after a load of the other byte order gives the same integer. -/
theorem swap16_load16_big {xs : Bytes} (h : xs.length = 2) :
    swap16 (load16 .big xs) = load16 .little xs := by
  rw [← load16_store16 .little (swap16 _), store16_little_swap16, store16_load16 .big h]

theorem swap32_load32_big {xs : Bytes} (h : xs.length = 4) :
    swap32 (load32 .big xs) = load32 .little xs := by
  rw [← load32_store32 .little (swap32 _), store32_little_swap32, store32_load32 .big h]

end Libfcd.Memory
