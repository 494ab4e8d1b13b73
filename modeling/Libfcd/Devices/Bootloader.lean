import Libfcd.Devices.Link
import Libfcd.Memory.Plane
import Libfcd.Proofs.Sweep

namespace Libfcd.Devices
open Interaction Memory Model Proofs

/-- A dongle in bootloader mode: its flash, the address pointer that blocks are
read and written at, the range it reports, and what it answers to a query. -/
structure Boot where
  flash : Plane UInt8
  pointer : Nat
  start : UInt32
  stop : UInt32
  version : Bytes

/-- A dongle with a range of one block, fresh from an erase. -/
def oneBlock : Boot where
  flash := fun _ => 0xff
  pointer := 0
  start := 0
  stop := 48
  version := [70, 67, 68, 0]

namespace Boot

/-- The flash from the start of the range to its end is that of the image. -/
def Matches (b : Boot) (data : Bytes) : Prop :=
  b.flash.window b.start.toNat (b.stop.toNat - b.start.toNat) =
    data.extract b.start.toNat b.stop.toNat

instance (b : Boot) (data : Bytes) : Decidable (b.Matches data) :=
  inferInstanceAs (Decidable (_ = _))

theorem matches_iff {b : Boot} {data : Bytes} {size : UInt32} (hs : Sane b.start b.stop size)
    (hsize : size.toNat ≤ data.length) :
    b.Matches data ↔ b.flash.Holds data b.start.toNat b.stop.toNat :=
  (b.flash.holds_iff_window data (Nat.le_of_lt hs.1.1) (Nat.le_trans hs.2 hsize)).symm

/-- The data of a block are the 48 bytes behind the byte that is skipped. -/
def storeBlock (b : Boot) (block : Bytes) : Boot :=
  { b with flash := b.flash.overwrite b.pointer block, pointer := b.pointer + 48 }

/-- `wipe` is what an erase makes of the flash. -/
def serve (wipe : Plane UInt8 → Plane UInt8) : Serve Boot := fun report b =>
  match report.getD 1 0 with
  | 1 => (some b.version, b)
  | 24 => (some [], { b with flash := wipe b.flash })
  | 25 => (some [], { b with pointer := ofLeBytes ((report.drop 2).take 4) })
  | 26 => (some (leBytes 4 b.start.toNat ++ leBytes 4 b.stop.toNat), b)
  | 27 => (some [], b.storeBlock ((report.drop 3).takeD 48 0))
  | 28 => (some (b.flash.window b.pointer 48), { b with pointer := b.pointer + 48 })
  | _ => (none, b)

variable (wipe : Plane UInt8 → Plane UInt8)

theorem serve_erase (dev : Fcd) (b : Boot) :
    serve wipe (eraseRequest dev).report b = (some [], { b with flash := wipe b.flash }) := rfl

theorem serve_address (dev : Fcd) (addr : UInt32) (b : Boot) :
    serve wipe (addressRequest dev addr).report b =
      (some [], { b with pointer := addr.toNat }) := by
  have hlt := addr.toNat_lt
  have htake : (leBytes 4 addr.toNat).take 4 = leBytes 4 addr.toNat :=
    List.take_of_length_le (by simp)
  have hvalue : ofLeBytes (leBytes 4 addr.toNat) = addr.toNat := by
    rw [ofLeBytes_leBytes]
    omega
  change (_, { b with pointer := ofLeBytes ((leBytes 4 addr.toNat).take 4) }) = _
  rw [htake, hvalue]

theorem serve_range (dev : Fcd) (b : Boot) :
    serve wipe (rangeRequest dev).report b =
      (some (leBytes 4 b.start.toNat ++ leBytes 4 b.stop.toNat), b) := rfl

theorem serve_block (dev : Fcd) {block : Bytes} (hlen : block.length = 48) (b : Boot) :
    serve wipe (blockRequest dev block).report b = (some [], b.storeBlock block) := by
  have htake : block.takeD 48 0 = block := by
    rw [List.takeD_eq_take _ (by omega), List.take_of_length_le (by omega)]
  change (_, b.storeBlock (block.takeD 48 0)) = _
  rw [htake]

theorem serve_read (dev : Fcd) (b : Boot) :
    serve wipe (readRequest dev).report b =
      (some (b.flash.window b.pointer 48), { b with pointer := b.pointer + 48 }) := rfl

theorem serve_query {report : Bytes} (h : report.getD 1 0 = 1) (b : Boot) :
    (serve wipe report b).2 = b := by
  simp only [serve, h]

theorem serve_asked {report : Bytes} (h : report.getD 1 0 = 26) (b : Boot) :
    (serve wipe report b).2 = b := by
  simp only [serve, h]

theorem serve_look {report : Bytes} (h : report.getD 1 0 = 28) (b : Boot) :
    (serve wipe report b).2 = { b with pointer := b.pointer + 48 } := by
  simp only [serve, h]

/-- No report changes the range. -/
theorem serve_start (report : Bytes) (b : Boot) : (serve wipe report b).2.start = b.start := by
  simp only [serve]
  split <;> rfl

theorem serve_stop (report : Bytes) (b : Boot) : (serve wipe report b).2.stop = b.stop := by
  simp only [serve]
  split <;> rfl

/-- Blocks written one after the other end up as one stretch of flash. -/
theorem serveAll_blocks (dev : Fcd) {blocks : List Bytes}
    (hlen : ∀ block ∈ blocks, block.length = 48)
    (b : Boot) : serveAll (serve wipe) (blocks.map (blockRequest dev)) b =
      { b with flash := b.flash.overwrite b.pointer blocks.flatten,
               pointer := b.pointer + 48 * blocks.length } := by
  induction blocks generalizing b with
  | nil => simp [serveAll]
  | cons block blocks ih =>
    have hblock := hlen block (by simp)
    have hrest := ih (fun block hb => hlen block (by simp [hb])) (b.storeBlock block)
    rw [List.map_cons, serveAll, List.foldl_cons, serve_block wipe dev hblock]
    apply hrest.trans
    have happend := b.flash.overwrite_append b.pointer block blocks.flatten
    rw [hblock] at happend
    simp only [storeBlock, happend, List.flatten_cons, List.length_cons, mk.injEq, and_true,
      true_and]
    omega

section
variable {wipe} {σ : Type} {h : Host σ} {view : σ → Boot}

/-- A range that was given is the range of the dongle. -/
theorem rangeIn_eq (a : Attached (serve wipe) h view) {s : σ} {dev : Fcd} {start stop : UInt32}
    (hx : rangeIn dev (converse h (rangeRequest dev) s).1 = some (start, stop)) :
    start = (view s).start ∧ stop = (view s).stop := by
  cases ho : (converse h (rangeRequest dev) s).1.outcome (rangeRequest dev) with
  | error e => simp [rangeIn, ho, Except.toOption] at hx
  | ok bytes =>
    obtain ⟨data, hdata, rfl⟩ := (a.honest _ s bytes ho).2
    rw [serve_range] at hdata
    obtain rfl := Option.some.inj hdata
    have hload : ∀ v : UInt32, load32 .little (leBytes 4 v.toNat) = v := load32_store32 .little
    have htake : (leBytes 4 (view s).start.toNat ++ leBytes 4 (view s).stop.toNat).takeD
        ((rangeRequest dev).want - 2) 0 =
          leBytes 4 (view s).start.toNat ++ leBytes 4 (view s).stop.toNat := by
      rw [List.takeD_eq_take _ (by simp [rangeRequest]), List.take_of_length_le]
      simp [rangeRequest]
    rw [rangeIn, ho, htake] at hx
    simpa [Except.toOption, rangeOf, List.take_append_of_le_length, List.drop_append_of_le_length,
      hload, eq_comm] using hx

/-- Asking for the range changes nothing. -/
theorem range_view (a : Attached (serve wipe) h view) (s : σ) (dev : Fcd) :
    view (converse h (rangeRequest dev) s).2 = view s := by
  rcases a.converse (rangeRequest dev) s with hv | hv
  · exact hv
  · rw [hv, serve_range]

/-- Setting the address moves the pointer at most. -/
theorem address_flash (a : Attached (serve wipe) h view) (s : σ) (dev : Fcd) (addr : UInt32) :
    (view (converse h (addressRequest dev addr) s).2).flash = (view s).flash := by
  rcases a.converse (addressRequest dev addr) s with hv | hv
  · rw [hv]
  · rw [hv, serve_address]

end

end Boot

end Libfcd.Devices
