import Libfcd.Devices.Bootloader
import Libfcd.Proofs.Tuner

namespace Libfcd.Proofs
open Interaction Memory Model Devices

variable {σ : Type}

/-- The setters put the same reports on the wire on every host, and the getters
make the same integers of every response. -/
theorem wire_format (h : Host σ) (s : σ) (dev : Fcd) (host : Endian) :
    (∀ i q : Int32, Short i.toInt → Short q.toInt →
      let r : Request := ⟨dev.path, [0, 106] ++ leInt 2 i.toInt ++ leInt 2 q.toInt, 2⟩
      Program.Runs h (fcdSetDcCorrection host (some dev) i q) s ((converse h r s).1.status r)
        (converse h r s).2 ((converse h r s).1.events r)) ∧
    (∀ (phase : Int32) (gain : UInt32), Short phase.toInt → gain.toNat < 65536 →
      let r : Request := ⟨dev.path, [0, 108] ++ leInt 2 phase.toInt ++ leBytes 2 gain.toNat, 2⟩
      Program.Runs h (fcdSetIqCorrection host (some dev) phase gain) s
        ((converse h r s).1.status r) (converse h r s).2 ((converse h r s).1.events r)) ∧
    (∀ freq : UInt32,
      let r : Request := ⟨dev.path, [0, 101] ++ leBytes 4 freq.toNat, 2⟩
      Program.Runs h (fcdSetFrequencyHz host (some dev) freq) s ((converse h r s).1.status r)
        (converse h r s).2 ((converse h r s).1.events r)) ∧
    (∀ addr : UInt32,
      let r : Request := ⟨dev.path, [0, 25] ++ leBytes 4 addr.toNat, 2⟩
      Program.Runs h (fcdBlSetAddress host (some dev) addr) s ((converse h r s).1.status r)
        (converse h r s).2 ((converse h r s).1.events r)) ∧
    (let r : Request := ⟨dev.path, [0, 107], 6⟩;
      Program.Runs h (fcdGetDcCorrection host (some dev)) s
        (((converse h r s).1.outcome r).map (fun bytes =>
          (Int32.ofInt (ofLeInt (bytes.take 2)), Int32.ofInt (ofLeInt (bytes.drop 2)))))
        (converse h r s).2 ((converse h r s).1.events r)) ∧
    (let r : Request := ⟨dev.path, [0, 109], 6⟩;
      Program.Runs h (fcdGetIqCorrection host (some dev)) s
        (((converse h r s).1.outcome r).map (fun bytes =>
          (Int32.ofInt (ofLeInt (bytes.take 2)), UInt32.ofNat (ofLeBytes (bytes.drop 2)))))
        (converse h r s).2 ((converse h r s).1.events r)) ∧
    (let r : Request := ⟨dev.path, [0, 102], 6⟩;
      Program.Runs h (fcdGetFrequencyHz host (some dev)) s
        (((converse h r s).1.outcome r).map (fun bytes => UInt32.ofNat (ofLeBytes bytes)))
        (converse h r s).2 ((converse h r s).1.events r)) ∧
    (let r : Request := ⟨dev.path, [0, 26], 10⟩;
      Program.Runs h (fcdBlGetAddressRange host (some dev)) s
        (((converse h r s).1.outcome r).map (fun bytes =>
          (UInt32.ofNat (ofLeBytes (bytes.take 4)), UInt32.ofNat (ofLeBytes (bytes.drop 4)))))
        (converse h r s).2 ((converse h r s).1.events r)) :=
  ⟨fun _ _ hi hq => fcdSetDcCorrection_spec h s host dev hi hq,
    fun _ _ hp hg => fcdSetIqCorrection_spec h s host dev hp hg,
    fun freq => fcdSetFrequencyHz_spec h s host dev freq,
    fun addr => fcdBlSetAddress_spec h s host dev addr,
    fcdGetDcCorrection_spec h s host dev,
    fcdGetIqCorrection_spec h s host dev,
    fcdGetFrequencyHz_spec h s host dev,
    fcdBlGetAddressRange_spec h s host dev⟩

/-- A big-endian host sets a correction of -2 and 1. -/
theorem wire_format_big_endian :
    let r : Request := ⟨"dongle", [0, 106, 0xfe, 0xff, 1, 0], 2⟩
    Program.Runs (Link.host (Boot.serve id))
      (fcdSetDcCorrection .big (some ⟨0, "dongle", 1⟩) (-2) 1) ⟨oneBlock, [], []⟩
      ((converse (Link.host (Boot.serve id)) r ⟨oneBlock, [], []⟩).1.status r)
      (converse (Link.host (Boot.serve id)) r ⟨oneBlock, [], []⟩).2
      ((converse (Link.host (Boot.serve id)) r ⟨oneBlock, [], []⟩).1.events r) :=
  (wire_format (Link.host (Boot.serve id)) ⟨oneBlock, [], []⟩ ⟨0, "dongle", 1⟩ .big).1 (-2) 1
    (by decide) (by decide)

end Libfcd.Proofs
