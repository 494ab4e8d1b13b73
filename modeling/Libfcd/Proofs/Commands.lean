import Libfcd.Model.Bootloader
import Libfcd.Proofs.Exchange
import Libfcd.Proofs.HostOrder

namespace Libfcd.Proofs
open Interaction Memory Model

variable {σ : Type}

/-- A request with a payload and nothing but the header for an answer. -/
def order (dev : Fcd) (cmd : UInt8) (payload : Bytes) : Request :=
  ⟨dev.path, 0 :: cmd :: payload, 2⟩

/-- A request without payload for `n` bytes of data. -/
def question (dev : Fcd) (cmd : UInt8) (n : Nat) : Request :=
  ⟨dev.path, [0, cmd], n + 2⟩

/-- The data of a successful exchange are as many as were asked for. -/
theorem outcome_length {q : Request} {x : Exchange} {bytes : Bytes}
    (h : x.outcome q = .ok bytes) : bytes.length = q.want - 2 := by
  cases x with
  | notOpened => cases h
  | notWritten dev count => cases h
  | answered dev count received =>
    have hbytes := (reply_eq_some.mp (Exchange.outcome_answered.mp h)).2.2.2
    rw [← hbytes, List.length_drop, List.takeD_length]

/-- The result of an exchange, without its data. -/
def Exchange.status (q : Request) (x : Exchange) : Status := (x.outcome q).map (fun _ => ())

theorem settle_status (odata : Option Buffer) (o : Except Errno Bytes) :
    (settle odata o).1 = o.map (fun _ => ()) := by
  cases o <;> rfl

theorem fcdSet_spec (h : Host σ) (s : σ) (dev : Fcd) (cmd : UInt8) (data : Option Bytes)
    (len : UInt8) (hlen : (data.getD []).length = len.toNat) (hle : len.toNat ≤ 63)
    (hnull : len ≠ 0 → data ≠ none) :
    let q := order dev cmd (data.getD [])
    Program.Runs h (fcdSet (some dev) cmd data len) s ((converse h q s).1.status q)
      (converse h q s).2 ((converse h q s).1.events q) := by
  intro q
  have hq : request dev cmd 0 (data.getD []) len 0 = q := by
    have hall : len.toNat ≤ 63 → (data.getD []).take (min len.toNat 63) = data.getD [] :=
      fun h => by rw [Nat.min_eq_left h, ← hlen, List.take_length]
    simp [request, frame, order, q, trimIlen_toNat, trimOlen_toNat, hall hle]
  have hio := fcdIo_spec h s dev cmd 0 data len none 0 (by simp) hnull (by omega)
    (by simp [Room, trimOlen_toNat])
  rw [hq] at hio
  exact hio.bind_done (by simp [settle_status, Exchange.status])

theorem fcdGet_spec (h : Host σ) (s : σ) (dev : Fcd) (cmd : UInt8) (b : Buffer) (len : UInt8)
    (hlen : len.toNat ≤ b.length) :
    let q := question dev cmd (trimOlen len).toNat
    Program.Runs h (fcdGet (some dev) cmd (some b) len) s
      (settle (some b) ((converse h q s).1.outcome q)) (converse h q s).2
      ((converse h q s).1.events q) := by
  have hroom : Room (trimOlen len).toNat (some b) := by
    simp only [Room, trimOlen_toNat]
    omega
  have := fcdIo_spec h s dev cmd 0 none 0 (some b) len (by simp) (by simp) (by simp) hroom
  simpa [request, frame, question, fcdGet] using this

/-- A get that fills its local object leaves exactly the data in it. -/
theorem fcdGet_full (h : Host σ) (s : σ) (dev : Fcd) (cmd : UInt8) {n : Nat} {len : UInt8}
    (hlen : len.toNat = n) (hn : n ≤ 62) :
    let q := question dev cmd n
    Program.Runs h (fcdGet (some dev) cmd (some (Buffer.fresh n)) len) s
      (match (converse h q s).1.outcome q with
        | .error e => (.error e, some (Buffer.fresh n))
        | .ok bytes => (.ok (), some (bytes.map some)))
      (converse h q s).2 ((converse h q s).1.events q) := by
  intro q
  have hq : question dev cmd (trimOlen len).toNat = q := by
    simp [question, q, trimOlen_toNat, hlen, hn]
  have hget := fcdGet_spec h s dev cmd (Buffer.fresh n) len (by simp [hlen])
  rw [hq] at hget
  cases ho : (converse h q s).1.outcome q with
  | error e => simpa only [ho, settle] using hget
  | ok bytes =>
    have hl : bytes.length = n := outcome_length ho
    have hdrop : (Buffer.fresh n).drop bytes.length = [] := by simp [Buffer.fresh, hl]
    simpa only [ho, settle, Option.map_some, hdrop, List.append_nil] using hget

/-- A get whose data are decoded. -/
theorem fcdGet_decode {α : Type} (h : Host σ) (s : σ) (dev : Fcd) (cmd : UInt8) {n : Nat}
    {len : UInt8} (hlen : len.toNat = n) (hn : n ≤ 62) {decode : Bytes → α}
    {next : Status × Option Buffer → Hid (Except Errno α)}
    (herr : ∀ e b, next (.error e, b) = .done (.error e))
    (hok : ∀ bytes : Bytes, bytes.length = n →
      next (.ok (), some (bytes.map some)) = .done (.ok (decode bytes))) :
    let q := question dev cmd n
    Program.Runs h (fcdGet (some dev) cmd (some (Buffer.fresh n)) len >>= next) s
      (((converse h q s).1.outcome q).map decode) (converse h q s).2
      ((converse h q s).1.events q) := by
  intro q
  have hget := fcdGet_full h s dev cmd hlen hn
  have hq : question dev cmd n = q := rfl
  rw [hq] at hget
  cases ho : (converse h q s).1.outcome q with
  | error e =>
    simp only [ho] at hget
    exact hget.bind_done (herr e _)
  | ok bytes =>
    simp only [ho] at hget
    exact hget.bind_done (hok bytes (outcome_length ho))

/-! The requests of the bootloader commands, byte for byte. -/

def eraseRequest (dev : Fcd) : Request := ⟨dev.path, [0, 24], 2⟩

def addressRequest (dev : Fcd) (addr : UInt32) : Request :=
  ⟨dev.path, [0, 25] ++ leBytes 4 addr.toNat, 2⟩

def rangeRequest (dev : Fcd) : Request := ⟨dev.path, [0, 26], 10⟩

/-- The block goes one byte behind the command. -/
def blockRequest (dev : Fcd) (block : Bytes) : Request := ⟨dev.path, [0, 27, 0] ++ block, 2⟩

def readRequest (dev : Fcd) : Request := ⟨dev.path, [0, 28], 50⟩

theorem fcdBlEraseApplication_spec (h : Host σ) (s : σ) (dev : Fcd) :
    let q := eraseRequest dev
    Program.Runs h (fcdBlEraseApplication (some dev)) s ((converse h q s).1.status q)
      (converse h q s).2 ((converse h q s).1.events q) :=
  fcdSet_spec h s dev fcdCmdEraseApplication none 0 (by simp) (by simp) (by simp)

theorem fcdBlSetAddress_spec (h : Host σ) (s : σ) (host : Endian) (dev : Fcd) (addr : UInt32) :
    let q := addressRequest dev addr
    Program.Runs h (fcdBlSetAddress host (some dev) addr) s ((converse h q s).1.status q)
      (converse h q s).2 ((converse h q s).1.events q) := by
  simp only [fcdBlSetAddress, store32_convert]
  exact fcdSet_spec h s dev fcdCmdSetByteAddr (some (leBytes 4 addr.toNat)) 4 (by simp)
    (by simp) (by simp)

/-- The two addresses in the data of a range exchange. -/
def rangeOf (bytes : Bytes) : UInt32 × UInt32 :=
  (load32 .little (bytes.take 4), load32 .little (bytes.drop 4))

theorem fcdBlGetAddressRange_spec (h : Host σ) (s : σ) (host : Endian) (dev : Fcd) :
    let q := rangeRequest dev
    Program.Runs h (fcdBlGetAddressRange host (some dev)) s
      (((converse h q s).1.outcome q).map rangeOf) (converse h q s).2
      ((converse h q s).1.events q) := by
  apply fcdGet_decode h s dev fcdCmdGetByteAddrRange (n := 8) rfl (by omega) (fun _ _ => rfl)
  intro bytes hl
  simp [convert_load32 host (bytes.take 4) (by simp [hl]),
    convert_load32 host (bytes.drop 4) (by simp [hl]), rangeOf]

theorem fcdBlReadBlock_spec (h : Host σ) (s : σ) (dev : Fcd) :
    let q := readRequest dev
    Program.Runs h (fcdBlReadBlock (some dev) (some (Buffer.fresh 48))) s
      (match (converse h q s).1.outcome q with
        | .error e => (.error e, some (Buffer.fresh 48))
        | .ok bytes => (.ok (), some (bytes.map some)))
      (converse h q s).2 ((converse h q s).1.events q) :=
  fcdGet_full h s dev fcdCmdReadBlock rfl (by omega)

theorem fcdBlWriteBlock_spec (h : Host σ) (s : σ) (dev : Fcd) (block : Bytes)
    (hb : 48 ≤ block.length) :
    let q := blockRequest dev (block.take 48)
    Program.Runs h (fcdBlWriteBlock (some dev) (some block)) s ((converse h q s).1.status q)
      (converse h q s).2 ((converse h q s).1.events q) := by
  intro q
  have hq : request dev fcdCmdWriteBlock 1 block 48 0 = q := by
    simp [request, frame, q, blockRequest, trimIlen_toNat, trimOlen_toNat]
    rfl
  have hio := fcdIo_spec h s dev fcdCmdWriteBlock 1 (some block) 48 none 0 (by decide) (by simp)
    (by simpa using hb) (by simp [Room, trimOlen_toNat])
  rw [Option.getD_some, hq] at hio
  exact hio.bind_done (by simp [settle_status, Exchange.status])

end Libfcd.Proofs
