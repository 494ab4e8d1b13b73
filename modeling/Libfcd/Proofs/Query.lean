import Libfcd.Devices.Bootloader

namespace Libfcd.Proofs
open Interaction Memory Model Devices

variable {σ : Type}

/-- How many bytes of data a query of a buffer of `m` bytes asks for. -/
def queried (m : Nat) : Nat := min (m % 256) 62

theorem queried_le (m : Nat) : queried m ≤ m := by
  have := Nat.mod_le m 256
  simp only [queried]
  omega

theorem le_queried_iff {m : Nat} : m ≤ queried m + 1 ↔ m ≤ 63 := by
  simp only [queried]
  omega

/-- The request for a buffer of `m` bytes. -/
def queryRequest (dev : Fcd) (m : Nat) : Request := ⟨dev.path, [0, 1], queried m + 2⟩

/-- What stands in the buffer after a query: the data, what was there before, and
a terminator at the very end. -/
def answered (b : Buffer) (bytes : Bytes) : Buffer :=
  (bytes.map some ++ b.drop bytes.length).take (b.length - 1) ++ [some 0]

theorem fcdQuery_spec (h : Host σ) (s : σ) (dev : Fcd) {b : Buffer} {len : Int32}
    (hpos : 1 ≤ len.toInt) (hlen : b.length = len.toInt.toNat) :
    let q := queryRequest dev b.length
    Program.Runs h (fcdQuery (some dev) (some b) len) s
      (match (converse h q s).1.outcome q with
        | .error _ => (false, some b)
        | .ok bytes => (true, some (answered b bytes)))
      (converse h q s).2 ((converse h q s).1.events q) := by
  intro q
  have hbyte : (UInt8.ofInt len.toInt).toNat = b.length % 256 := by
    have hmod : (UInt8.ofInt len.toInt).toNat = (len.toInt % 256).toNat := by
      simp only [UInt8.ofInt, UInt8.toNat_ofNat']
      omega
    omega
  have hask : question dev fcdCmdQuery (trimOlen (UInt8.ofInt len.toInt)).toNat = q := by
    simp [question, q, queryRequest, queried, trimOlen_toNat, hbyte, fcdCmdQuery]
  have hget := fcdGet_spec h s dev fcdCmdQuery b (UInt8.ofInt len.toInt)
    (by rw [hbyte]; exact Nat.mod_le _ _)
  rw [hask] at hget
  cases ho : (converse h q s).1.outcome q with
  | error e =>
    simp only [ho, settle] at hget
    exact hget.bind_done rfl
  | ok bytes =>
    simp only [ho, settle, Option.map_some] at hget
    have hl : bytes.length = queried b.length := outcome_length ho
    have hq := queried_le b.length
    apply hget.bind_done
    have hw : (bytes.map some ++ b.drop bytes.length).length = b.length := by
      simp
      omega
    have hlast : (len.toInt - 1).toNat = b.length - 1 := by omega
    have hnonneg : 0 ≤ len.toInt - 1 := by omega
    have hend : b.length - 1 + [some (0 : UInt8)].length = b.length := by
      rw [List.length_singleton]
      omega
    have hput := Buffer.put_eq (b := bytes.map some ++ b.drop bytes.length)
      (Nat.le_of_eq (hend.trans hw.symm))
    rw [hend, List.drop_of_length_le (Nat.le_of_eq hw), List.append_nil] at hput
    simp only [Option.bind_some, hnonneg, if_true, hlast, hput, Program.expect_some,
      Program.done_bind]
    rfl

/-- The inputs on which no byte of the old buffer gets into the string: short
buffers, responses with a NUL, and buffers with a NUL right behind the data. -/
def Sealed (b : Buffer) (bytes : Bytes) : Prop :=
  b.length ≤ 63 ∨ 0 ∈ bytes ∨ b[queried b.length]? = some (some 0)

theorem text_answered (b : Buffer) (bytes : Bytes) : (answered b bytes).text =
    Buffer.text ((bytes.map some ++ b.drop bytes.length).take (b.length - 1)) :=
  Buffer.text_append_nul _ []

/-- The cells before the terminator when the data end before it does. -/
theorem take_answered (b : Buffer) {bytes : Bytes} (hn : bytes.length < b.length - 1) :
    ∃ (_ : bytes.length < b.length) (rest : Buffer),
      (bytes.map some ++ b.drop bytes.length).take (b.length - 1) =
        bytes.map some ++ b[bytes.length] :: rest := by
  refine ⟨by omega, (b.drop (bytes.length + 1)).take (b.length - 1 - (bytes.length + 1)), ?_⟩
  have hlt : bytes.length < b.length := by omega
  have hrest : b.length - 1 - bytes.length = b.length - 1 - (bytes.length + 1) + 1 := by omega
  rw [List.take_append, List.take_of_length_le (by simp; omega), List.length_map,
    List.drop_eq_getElem_cons hlt, hrest, List.take_succ_cons]

theorem text_of_sealed {b : Buffer} {bytes : Bytes} (hb : bytes.length = queried b.length)
    (hs : Sealed b bytes) :
    (answered b bytes).text = ((bytes.take (b.length - 1)).takeWhile (· ≠ 0)).map some := by
  rw [text_answered]
  by_cases hn : b.length ≤ bytes.length + 1
  · rw [List.take_append_of_le_length (by simp; omega), ← List.map_take, Buffer.text_map_some]
  · have hshort : bytes.length < b.length - 1 := by omega
    obtain ⟨hlt, rest, hrest⟩ := take_answered b hshort
    rw [hrest, List.take_of_length_le (by omega)]
    by_cases h0 : 0 ∈ bytes
    · exact Buffer.text_append_of_mem h0 _
    · have hnul : b[bytes.length] = some 0 := by
        rcases hs with hs | hs | hs
        · rw [hb, le_queried_iff] at hn
          exact absurd hs hn
        · exact absurd hs h0
        · rw [← hb] at hs
          exact (List.getElem?_eq_some_iff.mp hs).2
      rw [Buffer.text_append_of_not_mem h0, hnul, ← Buffer.text_map_some]
      have hall := Buffer.text_append_of_not_mem h0 []
      rw [List.append_nil] at hall
      rw [hall]
      rfl

theorem not_prefix_of_not_sealed {b : Buffer} {bytes : Bytes}
    (hb : bytes.length = queried b.length) (hs : ¬ Sealed b bytes) :
    ¬ (answered b bytes).text <+: bytes.map some := by
  simp only [Sealed, not_or] at hs
  obtain ⟨hlong, h0, hnul⟩ := hs
  have hn : bytes.length < b.length - 1 := by
    rw [← le_queried_iff, ← hb] at hlong
    omega
  obtain ⟨hlt, rest, hrest⟩ := take_answered _ hn
  have hne : b[bytes.length] ≠ some 0 := by
    rw [← hb, List.getElem?_eq_getElem (by omega)] at hnul
    intro h
    exact hnul (congrArg some h)
  rw [text_answered, hrest, Buffer.text_append_of_not_mem h0]
  intro hpre
  have hle := hpre.length_le
  simp [Buffer.text, hne] at hle

theorem nul_mem_answered (b : Buffer) (bytes : Bytes) : some 0 ∈ answered b bytes := by
  simp [answered]

theorem length_answered {b : Buffer} {bytes : Bytes} (hb : bytes.length ≤ b.length)
    (hpos : 1 ≤ b.length) : (answered b bytes).length = b.length := by
  simp [answered]
  omega

/-- A query yields only what the device said: on success the buffer holds a string
that is the beginning of the data, on failure it is as before. -/
def OnlySaid (b : Buffer) (response : Except Errno Bytes) (ok : Bool) (str : Buffer) : Prop :=
  match response with
  | .error _ => ok = false ∧ str = b
  | .ok bytes => ok = true ∧ str.length = b.length ∧ some 0 ∈ str ∧ str.text <+: bytes.map some

/-- When nothing of the old buffer gets into the string, or nothing was said. -/
def Clean (b : Buffer) : Except Errno Bytes → Prop
  | .error _ => True
  | .ok bytes => Sealed b bytes

/-- Exactly when a query yields only what the device said; the string is then one
and the same for every buffer of that length. -/
theorem fcdQuery_onlySaid_iff (h : Host σ) (s : σ) (dev : Fcd) (b : Buffer) (len : Int32)
    (hpos : 1 ≤ len.toInt) (hlen : b.length = len.toInt.toNat) :
    let q := queryRequest dev b.length
    let response := (converse h q s).1.outcome q
    ∃ (ok : Bool) (str : Buffer) (t : σ),
      Program.Runs h (fcdQuery (some dev) (some b) len) s (ok, some str) t
        ((converse h q s).1.events q) ∧
      (OnlySaid b response ok str ↔ Clean b response) ∧
      (∀ bytes, response = .ok bytes → Clean b response →
        str.text = ((bytes.take (b.length - 1)).takeWhile (· ≠ 0)).map some) := by
  intro q response
  have hq : queryRequest dev b.length = q := rfl
  have hrun := fcdQuery_spec h s dev hpos hlen
  rw [hq] at hrun
  have hb : 1 ≤ b.length := by omega
  cases ho : (converse h q s).1.outcome q with
  | error e =>
    simp only [ho] at hrun
    refine ⟨false, b, _, hrun, ?_, ?_⟩
    · simp [response, ho, OnlySaid, Clean]
    · simp [response, ho]
  | ok bytes =>
    simp only [ho] at hrun
    have hl : bytes.length = queried b.length := outcome_length ho
    refine ⟨true, answered b bytes, _, hrun, ?_, ?_⟩
    · simp only [response, ho, OnlySaid, Clean, nul_mem_answered, true_and,
        length_answered (hl ▸ queried_le b.length) hb]
      constructor
      · intro hpre
        by_contra hs
        exact not_prefix_of_not_sealed hl hs hpre
      · intro hs
        rw [text_of_sealed hl hs]
        exact ((List.takeWhile_prefix _).trans (List.take_prefix _ _)).map some
    · intro bytes' hbytes hs
      simp only [response, ho, Except.ok.injEq] at hbytes hs
      subst hbytes
      exact text_of_sealed hl hs

/-- A dongle whose answer to a query fills the response and has no NUL. -/
def talkative : Boot := { oneBlock with version := List.replicate 62 65 }

theorem fcdQuery_onlySaid_iff_talkative :
    let q := queryRequest ⟨0, "dongle", 1⟩ 63
    let response := (converse (Link.host (Boot.serve id)) q ⟨talkative, [], []⟩).1.outcome q
    ∃ (ok : Bool) (str : Buffer) (t : Link Boot),
      Program.Runs (Link.host (Boot.serve id))
        (fcdQuery (some ⟨0, "dongle", 1⟩) (some (List.replicate 63 (some 66))) 63)
        ⟨talkative, [], []⟩ (ok, some str) t
        ((converse (Link.host (Boot.serve id)) q ⟨talkative, [], []⟩).1.events q) ∧
      (OnlySaid (List.replicate 63 (some 66)) response ok str ↔
        Clean (List.replicate 63 (some 66)) response) := by
  obtain ⟨ok, str, t, hrun, hiff, -⟩ := fcdQuery_onlySaid_iff (Link.host (Boot.serve id))
    ⟨talkative, [], []⟩ ⟨0, "dongle", 1⟩ (List.replicate 63 (some 66)) 63 (by decide) (by decide)
  exact ⟨ok, str, t, hrun, hiff⟩

/-- With the 64 bytes that the diagnostic tool passes, the byte that stood in front
of the terminator becomes part of the string. -/
theorem fcdQuery_keeps_stale_byte :
    ∃ str : Buffer, (Program.run (Link.host (Boot.serve id))
        (fcdQuery (some ⟨0, "dongle", 1⟩) (some (List.replicate 64 (some 66))) 64)
        ⟨talkative, [], []⟩).map Prod.fst = some (true, some str) ∧
      str.text = (List.replicate 62 65).map some ++ [some 66] ∧
      ¬ str.text <+: talkative.version.map some :=
  ⟨List.replicate 62 (some 65) ++ [some 66, some 0], by decide, by decide, by decide⟩

end Libfcd.Proofs
