import Libfcd.Model.Application
import Libfcd.Proofs.Commands

namespace Libfcd.Proofs
open Interaction Memory Model

variable {σ : Type}

/-! The requests of the tuner commands, byte for byte. -/

def setDcRequest (dev : Fcd) (i q : Int) : Request :=
  ⟨dev.path, [0, 106] ++ leInt 2 i ++ leInt 2 q, 2⟩

def setIqRequest (dev : Fcd) (phase : Int) (gain : Nat) : Request :=
  ⟨dev.path, [0, 108] ++ leInt 2 phase ++ leBytes 2 gain, 2⟩

def setFrequencyRequest (dev : Fcd) (freq : Nat) : Request :=
  ⟨dev.path, [0, 101] ++ leBytes 4 freq, 2⟩

def setValueRequest (dev : Fcd) (id : UInt32) (value : UInt8) : Request :=
  ⟨dev.path, [0, 110 + id.toUInt8, value], 2⟩

def getDcRequest (dev : Fcd) : Request := ⟨dev.path, [0, 107], 6⟩

def getIqRequest (dev : Fcd) : Request := ⟨dev.path, [0, 109], 6⟩

def getFrequencyRequest (dev : Fcd) : Request := ⟨dev.path, [0, 102], 6⟩

def getValueRequest (dev : Fcd) (id : UInt32) : Request :=
  ⟨dev.path, [0, 150 + id.toUInt8], 3⟩

/-- The `short` values. -/
def Short (v : Int) : Prop := -32768 ≤ v ∧ v ≤ 32767

instance (v : Int) : Decidable (Short v) := inferInstanceAs (Decidable (_ ∧ _))

/-- An `int` survives the way through a `short` exactly when it is one. -/
theorem short_iff {i : Int32} : i = i.toInt16.toInt32 ↔ Short i.toInt := by
  rw [← Int32.toInt_inj, Int16.toInt_toInt32, Int32.toInt_toInt16]
  have hi := Int32.toInt_lt i
  have hl := Int32.le_toInt i
  simp only [Short]
  constructor
  · intro h
    have := Int.le_bmod (x := i.toInt) (m := 2 ^ 16) (by decide)
    have := Int.bmod_lt (x := i.toInt) (m := 2 ^ 16) (by decide)
    omega
  · rintro ⟨h1, h2⟩
    exact (Int.bmod_eq_of_le (by omega) (by omega)).symm

theorem toInt_of_short {i : Int32} (h : Short i.toInt) : i.toInt16.toInt = i.toInt := by
  rw [← Int16.toInt_toInt32, ← short_iff.mpr h]

theorem gain_iff {gain : UInt32} : gain = gain.toUInt16.toUInt32 ↔ gain.toNat < 65536 := by
  rw [← UInt32.toNat_inj, UInt16.toNat_toUInt32, UInt32.toNat_toUInt16]
  omega

/-- The payload of an accepted integer, whatever the host. -/
theorem store16_short (host : Endian) {i : Int32} (h : Short i.toInt) :
    store16 host (convertLeU16 host i.toInt16.toUInt16).toInt16.toUInt16 = leInt 2 i.toInt := by
  rw [UInt16.toUInt16_toInt16, store16_convert, leBytes_int16, toInt_of_short h]

theorem fcdSetDcCorrection_spec (h : Host σ) (s : σ) (host : Endian) (dev : Fcd) {i q : Int32}
    (hi : Short i.toInt) (hq : Short q.toInt) :
    let r := setDcRequest dev i.toInt q.toInt
    Program.Runs h (fcdSetDcCorrection host (some dev) i q) s ((converse h r s).1.status r)
      (converse h r s).2 ((converse h r s).1.events r) := by
  have haccept : ¬ (i ≠ i.toInt16.toInt32 ∨ q ≠ q.toInt16.toInt32) := by
    simp [← short_iff.mpr hi, ← short_iff.mpr hq]
  simp only [fcdSetDcCorrection, if_neg haccept, store16_short host hi, store16_short host hq]
  exact fcdSet_spec h s dev fcdCmdSetDcCorr (some (leInt 2 i.toInt ++ leInt 2 q.toInt))
    4 (by simp) (by simp) (by simp)

/-- Values that do not fit are turned down before anything is sent. -/
theorem fcdSetDcCorrection_overflow (host : Endian) (dev : Option Fcd) {i q : Int32}
    (h : ¬ (Short i.toInt ∧ Short q.toInt)) :
    fcdSetDcCorrection host dev i q = .done (.error .eoverflow) := by
  have hreject : i ≠ i.toInt16.toInt32 ∨ q ≠ q.toInt16.toInt32 := by
    simpa only [ne_eq, short_iff, ← not_and_or] using h
  simp only [fcdSetDcCorrection, if_pos hreject]
  rfl

theorem fcdSetIqCorrection_spec (h : Host σ) (s : σ) (host : Endian) (dev : Fcd) {phase : Int32}
    {gain : UInt32} (hp : Short phase.toInt) (hg : gain.toNat < 65536) :
    let r := setIqRequest dev phase.toInt gain.toNat
    Program.Runs h (fcdSetIqCorrection host (some dev) phase gain) s ((converse h r s).1.status r)
      (converse h r s).2 ((converse h r s).1.events r) := by
  have haccept : ¬ (phase ≠ phase.toInt16.toInt32 ∨ gain ≠ gain.toUInt16.toUInt32) := by
    simp [← short_iff.mpr hp, ← gain_iff.mpr hg]
  have hgain : gain.toUInt16.toNat = gain.toNat := by
    rw [UInt32.toNat_toUInt16]
    omega
  have hstore : store16 host (convertLeU16 host gain.toUInt16).toInt16.toUInt16 =
      leBytes 2 gain.toNat := by
    rw [UInt16.toUInt16_toInt16, store16_convert, hgain]
  simp only [fcdSetIqCorrection, if_neg haccept, store16_short host hp, hstore]
  exact fcdSet_spec h s dev fcdCmdSetIqCorr
    (some (leInt 2 phase.toInt ++ leBytes 2 gain.toNat)) 4 (by simp) (by simp)
    (by simp)

theorem fcdSetIqCorrection_overflow (host : Endian) (dev : Option Fcd) {phase : Int32}
    {gain : UInt32} (h : ¬ (Short phase.toInt ∧ gain.toNat < 65536)) :
    fcdSetIqCorrection host dev phase gain = .done (.error .eoverflow) := by
  have hreject : phase ≠ phase.toInt16.toInt32 ∨ gain ≠ gain.toUInt16.toUInt32 := by
    simpa only [ne_eq, short_iff, gain_iff, ← not_and_or] using h
  simp only [fcdSetIqCorrection, if_pos hreject]
  rfl

theorem fcdSetFrequencyHz_spec (h : Host σ) (s : σ) (host : Endian) (dev : Fcd) (freq : UInt32) :
    let r := setFrequencyRequest dev freq.toNat
    Program.Runs h (fcdSetFrequencyHz host (some dev) freq) s ((converse h r s).1.status r)
      (converse h r s).2 ((converse h r s).1.events r) := by
  simp only [fcdSetFrequencyHz, store32_convert]
  exact fcdSet_spec h s dev fcdCmdSetFrequencyHz (some (leBytes 4 freq.toNat)) 4
    (by simp) (by simp) (by simp)

theorem fcdSetValue_spec (h : Host σ) (s : σ) (dev : Fcd) {id : UInt32} (value : UInt8)
    (hid : id < fcdValueUndefined) :
    let r := setValueRequest dev id value
    Program.Runs h (fcdSetValue (some dev) id value) s ((converse h r s).1.status r)
      (converse h r s).2 ((converse h r s).1.events r) := by
  have hcmd : (fcdCmdSetValueOffset + id).toUInt8 = 110 + id.toUInt8 := by
    simp [fcdCmdSetValueOffset]
  simp only [fcdSetValue, ge_iff_le, UInt32.not_le.mpr hid, if_false, hcmd]
  exact fcdSet_spec h s dev (110 + id.toUInt8) (some [value]) 1 (by simp)
    (by simp) (by simp)

/-! What the getters make of the data of a response. -/

def dcOf (bytes : Bytes) : Int32 × Int32 :=
  (Int32.ofInt (ofLeInt (bytes.take 2)), Int32.ofInt (ofLeInt (bytes.drop 2)))

def iqOf (bytes : Bytes) : Int32 × UInt32 :=
  (Int32.ofInt (ofLeInt (bytes.take 2)), UInt32.ofNat (ofLeBytes (bytes.drop 2)))

def frequencyOf (bytes : Bytes) : UInt32 := UInt32.ofNat (ofLeBytes bytes)

theorem short_ofLeInt {xs : Bytes} (h : xs.length = 2) : Short (ofLeInt xs) := by
  have hl := Int.le_bmod (x := (ofLeBytes xs : Int)) (m := 256 ^ 2) (by omega)
  have hu := Int.bmod_lt (x := (ofLeBytes xs : Int)) (m := 256 ^ 2) (by omega)
  rw [ofLeInt, h]
  exact ⟨by omega, by omega⟩

theorem toInt_ofInt_short {v : Int} (h : Short v) : (Int32.ofInt v).toInt = v := by
  obtain ⟨hl, hu⟩ := h
  rw [Int32.toInt_ofInt]
  exact Int.bmod_eq_of_le (by simp [Int32.size]; omega) (by simp [Int32.size]; omega)

theorem load16_short (host : Endian) (xs : Bytes) (h : xs.length = 2) :
    (convertLeU16 host (load16 host xs)).toInt16.toInt32 = Int32.ofInt (ofLeInt xs) := by
  rw [← Int32.toInt_inj, convert_load16 host h, Int16.toInt_toInt32, toInt_load16 h,
    toInt_ofInt_short (short_ofLeInt h)]

theorem load16_unsigned (host : Endian) (xs : Bytes) (h : xs.length = 2) :
    (convertLeU16 host (load16 host xs)).toUInt32 = UInt32.ofNat (ofLeBytes xs) := by
  have hlt := ofLeBytes_lt xs
  rw [h] at hlt
  rw [convert_load16 host h, ← UInt32.toNat_inj, UInt16.toNat_toUInt32]
  simp only [load16, Endian.order, UInt16.toNat_ofNat', UInt32.toNat_ofNat']
  omega

theorem fcdGetDcCorrection_spec (h : Host σ) (s : σ) (host : Endian) (dev : Fcd) :
    let r := getDcRequest dev
    Program.Runs h (fcdGetDcCorrection host (some dev)) s (((converse h r s).1.outcome r).map dcOf)
      (converse h r s).2 ((converse h r s).1.events r) := by
  apply fcdGet_decode h s dev fcdCmdGetDcCorr (n := 4) rfl (by omega) (fun _ _ => rfl)
  intro bytes hl
  simp [load16_short host (bytes.take 2) (by simp [hl]),
    load16_short host (bytes.drop 2) (by simp [hl]), dcOf]

theorem fcdGetIqCorrection_spec (h : Host σ) (s : σ) (host : Endian) (dev : Fcd) :
    let r := getIqRequest dev
    Program.Runs h (fcdGetIqCorrection host (some dev)) s (((converse h r s).1.outcome r).map iqOf)
      (converse h r s).2 ((converse h r s).1.events r) := by
  apply fcdGet_decode h s dev fcdCmdGetIqCorr (n := 4) rfl (by omega) (fun _ _ => rfl)
  intro bytes hl
  simp [load16_short host (bytes.take 2) (by simp [hl]),
    load16_unsigned host (bytes.drop 2) (by simp [hl]), iqOf]

theorem fcdGetFrequencyHz_spec (h : Host σ) (s : σ) (host : Endian) (dev : Fcd) :
    let r := getFrequencyRequest dev
    Program.Runs h (fcdGetFrequencyHz host (some dev)) s
      (((converse h r s).1.outcome r).map frequencyOf) (converse h r s).2
      ((converse h r s).1.events r) := by
  apply fcdGet_decode h s dev fcdCmdGetFrequencyHz (n := 4) rfl (by omega) (fun _ _ => rfl)
  intro bytes hl
  simp only [Option.bind_some, Buffer.written_map_some, Program.expect_some, Program.done_bind,
    convert_load32 host bytes hl]
  rfl

/-- The exchange is made for its status alone: the byte behind `value` stays. -/
theorem fcdGetValue_spec (h : Host σ) (s : σ) (dev : Fcd) {id : UInt32} (value : Option UInt8)
    (hid : id < fcdValueUndefined) :
    let r := getValueRequest dev id
    Program.Runs h (fcdGetValue (some dev) id value) s ((converse h r s).1.status r, value)
      (converse h r s).2 ((converse h r s).1.events r) := by
  intro r
  have hcmd : (fcdCmdGetValueOffset + id).toUInt8 = 150 + id.toUInt8 := by
    simp [fcdCmdGetValueOffset]
  have hask : question dev (150 + id.toUInt8) (trimOlen 1).toNat = r := by
    simp [question, r, getValueRequest, trimOlen_toNat]
  have hget := fcdGet_spec h s dev (150 + id.toUInt8) (Buffer.fresh 8) 1 (by simp)
  rw [hask] at hget
  simp only [fcdGetValue, ge_iff_le, UInt32.not_le.mpr hid, if_false, hcmd]
  apply hget.bind_done
  cases ho : (converse h r s).1.outcome r <;> simp [settle, Exchange.status, ho, Except.map]

end Libfcd.Proofs
