import Libfcd.Model.Common

namespace Libfcd.Proofs
open Interaction Memory Model

/-- One exchange as `fcd_io` sets it up: the device, the report for `hid_write`
and how many bytes of response, header included, are asked of `hid_read`. -/
structure Request where
  path : String
  report : Bytes
  want : Nat
  deriving DecidableEq, Repr

/-- The command byte stands behind the report ID. -/
def Request.command (q : Request) : UInt8 := q.report.getD 1 0

/-- The data of a response with the right header, if enough of it came. -/
def reply (q : Request) (r : Received) : Option Bytes :=
  let bytes := r.data.takeD q.want 0
  if r.count ≥ q.want ∧ bytes[0]? = some q.command ∧ bytes[1]? = some 1 then
    some (bytes.drop 2)
  else none

theorem reply_eq_some {q : Request} {r : Received} {bytes : Bytes} :
    reply q r = some bytes ↔ r.count ≥ q.want ∧ (r.data.takeD q.want 0)[0]? = some q.command ∧
      (r.data.takeD q.want 0)[1]? = some 1 ∧ (r.data.takeD q.want 0).drop 2 = bytes := by
  simp only [reply]
  split <;> simp_all

/-- How far an exchange came, with everything hidapi answered on the way. -/
inductive Exchange where
  | notOpened
  | notWritten (dev : Handle) (count : Int)
  | answered (dev : Handle) (count : Int) (received : Received)
  deriving DecidableEq, Repr

namespace Exchange

/-- The calls of an exchange. A handle that was opened is closed at the end. -/
def events (q : Request) : Exchange → List Happening
  | .notOpened => [⟨.hidOpenPath q.path, (none : Option Handle)⟩]
  | .notWritten dev count =>
    [⟨.hidOpenPath q.path, some dev⟩, ⟨.hidWrite dev q.report, count⟩, ⟨.hidClose (some dev), ()⟩]
  | .answered dev count received =>
    [⟨.hidOpenPath q.path, some dev⟩, ⟨.hidWrite dev q.report, count⟩,
      ⟨.hidRead dev q.want, received⟩, ⟨.hidClose (some dev), ()⟩]

/-- The outcome `fcd_io` reports, with the data received on success. -/
def outcome (q : Request) : Exchange → Except Errno Bytes
  | .notOpened => .error .enodev
  | .notWritten .. => .error .eio
  | .answered _ _ received =>
    match reply q received with
    | some bytes => .ok bytes
    | none => .error .eio

theorem outcome_answered {q : Request} {dev : Handle} {count : Int} {received : Received}
    {bytes : Bytes} : (answered dev count received).outcome q = .ok bytes ↔
      reply q received = some bytes := by
  cases h : reply q received <;> simp [outcome, h]

end Exchange

variable {σ : Type}

/-- The exchange that a host lets happen for a request, and the state it leaves. -/
def converse (h : Host σ) (q : Request) (s : σ) : Exchange × σ :=
  match opening h q.path s with
  | (none, s) => (.notOpened, s)
  | (some dev, s) =>
    match writing h dev q.report s with
    | (count, s) =>
      if count ≥ q.report.length then
        match reading h dev q.want s with
        | (received, s) => (.answered dev count received, closing h dev s)
      else (.notWritten dev count, closing h dev s)

theorem converse_answered {h : Host σ} {q : Request} {s s1 s2 s3 : σ} {dev : Handle} {count : Int}
    {received : Received} (ho : opening h q.path s = (some dev, s1))
    (hw : writing h dev q.report s1 = (count, s2)) (hc : count ≥ q.report.length)
    (hr : reading h dev q.want s2 = (received, s3)) :
    converse h q s = (.answered dev count received, closing h dev s3) := by
  simp [converse, ho, hw, hc, hr]

/-- The exchange that a request brings about, when its answer is accepted. -/
theorem outcome_eq_ok {h : Host σ} {s : σ} {q : Request} {bytes : Bytes} :
    (converse h q s).1.outcome q = .ok bytes ↔ ∃ hidDev s1 count s2 received s3,
      opening h q.path s = (some hidDev, s1) ∧ writing h hidDev q.report s1 = (count, s2) ∧
      count ≥ q.report.length ∧ reading h hidDev q.want s2 = (received, s3) ∧
      reply q received = some bytes := by
  rcases ho : opening h q.path s with ⟨_ | hidDev, s1⟩
  · simp [converse, ho, Exchange.outcome]
  rcases hw : writing h hidDev q.report s1 with ⟨count, s2⟩
  by_cases hc : count ≥ q.report.length
  · rcases hr : reading h hidDev q.want s2 with ⟨received, s3⟩
    rw [converse_answered ho hw hc hr, Exchange.outcome_answered]
    simp [hw, hc, hr]
  · simp [converse, ho, hw, hc, Exchange.outcome]

theorem trimIlen_toNat {iskip : UInt8} (ilen : UInt8) (h : iskip.toNat ≤ 63) :
    (trimIlen iskip ilen).toNat = min ilen.toNat (63 - iskip.toNat) := by
  have hk : iskip.toUInt64 ≤ UInt64.ofNat fcdCommandDataLen := by
    rw [UInt64.le_iff_toNat_le]
    simpa [fcdCommandDataLen] using h
  have hroom : (UInt64.ofNat fcdCommandDataLen - iskip.toUInt64).toNat = 63 - iskip.toNat := by
    rw [UInt64.toNat_sub_of_le _ _ hk]
    simp [fcdCommandDataLen]
  simp only [trimIlen, gt_iff_lt, UInt64.lt_iff_toNat_lt, hroom, UInt8.toNat_toUInt64]
  split
  · simp only [UInt64.toNat_toUInt8, hroom]
    omega
  · omega

theorem trimOlen_toNat (olen : UInt8) : (trimOlen olen).toNat = min olen.toNat 62 := by
  by_cases h : olen.toNat > 62 <;> simp [trimOlen, fcdResponseDataLen, h] <;> omega

/-- The report of a request: ID, command, skipped bytes and payload. -/
def frame (cmd iskip : UInt8) (payload : Bytes) : Bytes :=
  0 :: cmd :: (List.replicate iskip.toNat 0 ++ payload)

theorem length_frame (cmd iskip : UInt8) (payload : Bytes) :
    (frame cmd iskip payload).length = payload.length + 2 + iskip.toNat := by
  simp [frame]
  omega

/-- The union holds exactly the frame; the rest of it has not been written. -/
theorem fillCommand_eq (cmd : UInt8) {iskip ilen : UInt8} (data : Bytes)
    (hfit : iskip.toNat + ilen.toNat ≤ 63) (hdata : ilen.toNat ≤ data.length) :
    fillCommand cmd iskip (some data) ilen =
      some ((frame cmd iskip (data.take ilen.toNat)).map some ++
        Buffer.fresh (63 - iskip.toNat - ilen.toNat)) := by
  have h0 : (Buffer.fresh fcdBufferLen).put 0 [some 0] = some ([some 0] ++ Buffer.fresh 64) :=
    Buffer.put_fresh [] [some 0] (r := 65) (by simp)
  have h1 : Buffer.put ([some 0] ++ Buffer.fresh 64) 1 [some cmd] =
      some ([some 0, some cmd] ++ Buffer.fresh 63) :=
    Buffer.put_fresh [some 0] [some cmd] (by simp)
  have h2 : Buffer.put ([some 0, some cmd] ++ Buffer.fresh 63) 2
        (List.replicate iskip.toNat (some 0)) =
      some ([some 0, some cmd] ++ List.replicate iskip.toNat (some 0) ++
        Buffer.fresh (63 - iskip.toNat)) := by
    have := Buffer.put_fresh [some 0, some cmd] (List.replicate iskip.toNat (some 0)) (r := 63)
      (by simp; omega)
    simpa using this
  have hin : 0 + ilen.toNat ≤ (data.map some).length := by simpa using hdata
  have h3 := Buffer.slice_eq hin
  have h4 := Buffer.put_fresh ([some 0, some cmd] ++ List.replicate iskip.toNat (some 0))
    ((data.take ilen.toNat).map some) (r := 63 - iskip.toNat) (by simp; omega)
  simp only [List.drop_zero, ← List.map_take] at h3
  simp only [List.length_append, List.length_cons, List.length_nil, List.length_replicate,
    List.length_map, List.length_take, Nat.min_eq_left hdata, Nat.zero_add] at h4
  simp only [fillCommand, h0, h1, h2, h3, Option.getD_some, bind, Option.bind_some]
  have hoff : 2 + iskip.toNat = 1 + 1 + iskip.toNat := by omega
  rw [hoff, h4]
  simp [frame]

/-- What the caller of `fcd_io` is left with: on success the data received
replaces the front of what stood behind `odata`, otherwise nothing does. -/
def settle (odata : Option Buffer) : Except Errno Bytes → Status × Option Buffer
  | .error e => (.error e, odata)
  | .ok bytes => (.ok (), odata.map (fun b => bytes.map some ++ b.drop bytes.length))

/-- There is room for `n` bytes behind an output pointer. -/
def Room (n : Nat) : Option Buffer → Prop
  | none => n = 0
  | some b => n ≤ b.length

/-- Once a full response is in, the union begins with it, whatever the request
left there, and its data are copied out. -/
theorem copyResponse_eq {bytes : Bytes} {rest : Buffer} {odata : Option Buffer} {olen : UInt8}
    (hlen : bytes.length = olen.toNat + 2) (hroom : Room olen.toNat odata) :
    copyResponse (bytes.map some ++ rest) odata olen =
      some (settle odata (.ok (bytes.drop 2))).2 := by
  have hs : Buffer.slice (bytes.map some ++ rest) 2 olen.toNat =
      some ((bytes.drop 2).map some) := by
    rw [Buffer.slice_eq (by simp; omega), List.drop_append_of_le_length (by simp; omega),
      List.take_append_of_le_length (by simp; omega), ← List.map_drop, List.take_of_length_le]
    simp
    omega
  cases odata with
  | none =>
    obtain rfl : olen = 0 := UInt8.toNat_inj.mp hroom
    simp only [copyResponse, hs, settle, bind, Option.bind_some, if_true, Option.map_none]
  | some b =>
    have hb : olen.toNat ≤ b.length := hroom
    have hin : ((bytes.drop 2).map some).length ≤ b.length := by
      simp
      omega
    have hp := Buffer.put_zero hin
    simp only [copyResponse, hs, bind, Option.bind_some, hp, Option.map_some, settle,
      List.length_map]

/-- The request that `fcd_io` makes of its arguments, after trimming. -/
def request (dev : Fcd) (cmd iskip : UInt8) (data : Bytes) (ilen olen : UInt8) : Request :=
  ⟨dev.path, frame cmd iskip (data.take (trimIlen iskip ilen).toNat), (trimOlen olen).toNat + 2⟩

/-- The report is what the union begins with. -/
theorem report_slice (report : Bytes) (rest : Buffer) :
    (Buffer.slice (report.map some ++ rest) 0 report.length).bind Buffer.written =
      some report := by
  rw [Buffer.slice_eq (by simp)]
  simp

/-- A write that falls short ends the exchange before anything is read. -/
theorem sendReceive_short {h : Host σ} {report : Bytes} {hidDev : Handle} {s t : σ} {count : Int}
    (hw : writing h hidDev report s = (count, t)) (hc : ¬ count ≥ report.length)
    (cmd : UInt8) (rest : Buffer) (odata : Option Buffer) (olen : UInt8) :
    Program.Runs h (sendReceive hidDev cmd (report.map some ++ rest) report.length odata olen) s
      (false, odata) t [⟨.hidWrite hidDev report, count⟩] := by
  constructor <;> simp [sendReceive, report_slice, hw, hc]

/-- After a full write, a response is accepted exactly when it has data to give. -/
theorem sendReceive_read {h : Host σ} {q : Request} {hidDev : Handle} {s t u : σ} {count : Int}
    {received : Received} (hw : writing h hidDev q.report s = (count, t))
    (hc : count ≥ q.report.length) (hr : reading h hidDev q.want t = (received, u))
    (rest : Buffer) {odata : Option Buffer} {olen : UInt8} (hwant : q.want = olen.toNat + 2)
    (hlen : olen.toNat + 2 ≤ q.report.length + rest.length) (hroom : Room olen.toNat odata) :
    Program.Runs h
      (sendReceive hidDev q.command (q.report.map some ++ rest) q.report.length odata olen) s
      (match reply q received with
        | some bytes => (true, (settle odata (.ok bytes)).2)
        | none => (false, odata)) u
      [⟨.hidWrite hidDev q.report, count⟩, ⟨.hidRead hidDev q.want, received⟩] := by
  obtain ⟨path, report, want⟩ := q
  obtain rfl : want = olen.toNat + 2 := hwant
  generalize hcmd : Request.command ⟨path, report, olen.toNat + 2⟩ = cmd
  simp only at hw hc hr hlen ⊢
  have hb : Buffer.slice (report.map some ++ rest) 0 (olen.toNat + 2) =
      some ((report.map some ++ rest).take (olen.toNat + 2)) := by
    rw [Buffer.slice_eq (by simpa using hlen)]
    simp
  have hfit : (received.stored (olen.toNat + 2)).length ≤ (report.map some ++ rest).length := by
    simp
    omega
  simp only [Program.runs_iff, sendReceive, report_slice, hb, Program.expect_some,
    Program.done_bind, hidWrite_bind, hidRead_bind, run_write, events_write, hw, hc, if_true,
    run_read, events_read, hr, Buffer.put_zero hfit]
  by_cases hcount : received.count ≥ olen.toNat + 2
  · have hst : received.stored (olen.toNat + 2) =
        (received.data.takeD (olen.toNat + 2) 0).map some := by
      rw [Received.stored, Nat.min_eq_right (by omega)]
    have hl : (received.data.takeD (olen.toNat + 2) 0).length = olen.toNat + 2 :=
      List.takeD_length _ _ _
    simp only [hst, reply, hcmd, Nat.cast_add, Nat.cast_ofNat, hcount, true_and, if_true]
    generalize received.data.takeD (olen.toNat + 2) 0 = bytes at hl
    generalize List.drop _ (report.map some ++ rest) = tail
    have hget : ∀ i x, i < bytes.length →
        ((bytes.map some ++ tail)[i]? = some (some x) ↔ bytes[i]? = some x) := by
      intro i x hi
      rw [List.getElem?_append_left (by simpa using hi)]
      simp
    have h0 : 0 < bytes.length := by omega
    have h1 : 1 < bytes.length := by omega
    simp only [hget 0 _ h0, hget 1 _ h1]
    by_cases hh : bytes[0]? = some cmd ∧ bytes[1]? = some 1
    · simp [hh, copyResponse_eq hl hroom]
    · simp [hh]
  · simp [hcount, reply]

/-- `fcd_io` past its checks. The union begins with the report; `rest` is what
stands behind it. -/
def sendRequest (q : Request) (rest : Buffer) (odata : Option Buffer) (olen : UInt8) :
    Hid (Status × Option Buffer) := do
  match ← hidOpenPath q.path with
  | none => pure (.error .enodev, odata)
  | some hidDev => do
    let (ok, odata) ← sendReceive hidDev q.command (q.report.map some ++ rest) q.report.length odata
      olen
    hidClose (some hidDev)
    pure (if ok then .ok () else .error .eio, odata)

theorem sendRequest_runs (h : Host σ) (s : σ) (q : Request) (rest : Buffer) {odata : Option Buffer}
    {olen : UInt8} (hwant : q.want = olen.toNat + 2)
    (hlen : olen.toNat + 2 ≤ q.report.length + rest.length) (hroom : Room olen.toNat odata) :
    Program.Runs h (sendRequest q rest odata olen) s
      (settle odata ((converse h q s).1.outcome q)) (converse h q s).2
      ((converse h q s).1.events q) := by
  rw [sendRequest, Program.runs_iff]
  rcases hop : opening h q.path s with ⟨_ | hidDev, s1⟩
  · simp [hop, converse, Exchange.outcome, Exchange.events, settle]
  · rcases hw : writing h hidDev q.report s1 with ⟨count, s2⟩
    by_cases hc : count ≥ q.report.length
    · rcases hr : reading h hidDev q.want s2 with ⟨received, s3⟩
      have hsr := sendReceive_read hw hc hr rest hwant hlen hroom
      cases hrep : reply q received with
      | none =>
        rw [hrep] at hsr
        simp [hop, converse, hw, hc, hr, Exchange.outcome, Exchange.events, hrep, settle,
          Program.run_bind_of_run hsr.run, Program.events_bind_of_run hsr.run, hsr.events]
      | some bytes =>
        rw [hrep] at hsr
        simp [hop, converse, hw, hc, hr, Exchange.outcome, Exchange.events, hrep, settle,
          Program.run_bind_of_run hsr.run, Program.events_bind_of_run hsr.run, hsr.events]
    · have hsr := sendReceive_short hw hc q.command rest odata olen
      simp [hop, converse, hw, hc, Exchange.outcome, Exchange.events, settle,
        Program.run_bind_of_run hsr.run, Program.events_bind_of_run hsr.run, hsr.events]

/-- The contract of `fcd_io` within its bounds: it makes the one exchange its
arguments ask for and settles with what that brought. -/
theorem fcdIo_spec (h : Host σ) (s : σ) (dev : Fcd) (cmd iskip : UInt8) (idata : Option Bytes)
    (ilen : UInt8) (odata : Option Buffer) (olen : UInt8) (hskip : iskip.toNat ≤ 63)
    (hnull : ilen ≠ 0 → idata ≠ none) (hdata : ilen.toNat ≤ (idata.getD []).length)
    (hroom : Room (trimOlen olen).toNat odata) :
    let q := request dev cmd iskip (idata.getD []) ilen olen
    Program.Runs h (fcdIo (some dev) cmd iskip idata ilen odata olen) s
      (settle odata ((converse h q s).1.outcome q)) (converse h q s).2
      ((converse h q s).1.events q) := by
  intro q
  have hi := trimIlen_toNat ilen hskip
  have ho := trimOlen_toNat olen
  have hguard : ¬ ((ilen ≠ 0 ∧ idata = none) ∨ (olen ≠ 0 ∧ odata = none)) := by
    rintro (⟨hne, hn⟩ | ⟨hne, rfl⟩)
    · exact hnull hne hn
    · have h0 : (trimOlen olen).toNat = 0 := hroom
      have hpos : olen.toNat ≠ 0 := fun h => hne (UInt8.toNat_inj.mp h)
      omega
  have hfill : fillCommand cmd iskip idata (trimIlen iskip ilen) =
      some (q.report.map some ++ Buffer.fresh (63 - iskip.toNat - (trimIlen iskip ilen).toNat)) :=
    fillCommand_eq cmd (idata.getD []) (by omega) (by omega)
  have hlen : (trimIlen iskip ilen).toNat + 2 + iskip.toNat = q.report.length := by
    simp [q, request, length_frame]
    omega
  have hp : fcdIo (some dev) cmd iskip idata ilen odata olen = sendRequest q
      (Buffer.fresh (63 - iskip.toNat - (trimIlen iskip ilen).toNat)) odata (trimOlen olen) := by
    simp only [fcdIo, if_neg hguard, hfill, hlen]
    rfl
  rw [hp]
  exact sendRequest_runs h s q _ rfl (by simp; omega) hroom

end Libfcd.Proofs
