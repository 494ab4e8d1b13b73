import Libfcd.Devices.Bootloader

namespace Libfcd.Proofs
open Interaction Memory Model Devices

variable {σ : Type}

/-- One round of the writing loop. -/
def writeBody (dev : Fcd) (data : Bytes) (addr : UInt32) : Hid (Option Int) := do
  match ← fcdBlWriteBlock (some dev) (some (pointer data addr)) with
  | .error _ => pure (some (-5))
  | .ok () => pure none

theorem fcdBlFlashWrite_eq (host : Endian) (dev : Fcd) (data : Bytes) (size : UInt32) :
    fcdBlFlashWrite host (some dev) data size =
      sweep host (some dev) size (writeBody dev data) := rfl

theorem writeBody_runs (h : Host σ) (s : σ) (dev : Fcd) (data : Bytes) (addr : UInt32)
    (hfit : addr.toNat + 48 ≤ data.length) :
    let q := blockRequest dev ((pointer data addr).take 48)
    Program.Runs h (writeBody dev data addr) s
      (if (⟨q, (converse h q s).1⟩ : Transaction).succeeded then none else some (-5))
      (converse h q s).2 ((converse h q s).1.events q) := by
  intro q
  have hw := fcdBlWriteBlock_spec h s dev (pointer data addr) (by simp [pointer]; omega)
  apply hw.bind_done
  cases hx : (⟨q, (converse h q s).1⟩ : Transaction).succeeded with
  | true => rw [status_of_succeeded hx]; rfl
  | false =>
    obtain ⟨e, he⟩ := status_of_failed hx
    rw [he]
    rfl

def blockRequests (dev : Fcd) (data : Bytes) (start stop : UInt32) : List Request :=
  (blocksOf 48 data start.toNat (blockCount start stop)).map (blockRequest dev)

/-- Everything a write may ask for once it has a sane range. -/
def writeRequests (dev : Fcd) (data : Bytes) (start stop : UInt32) : List Request :=
  addressRequest dev start :: blockRequests dev data start stop

/-- The code that belongs to the transactions a write came to. -/
def writeResult (ts : List Transaction) : Int :=
  if ts.all Transaction.succeeded then 0 else if ts.length = 1 then -4 else -5

theorem blocks_perform (h : Host σ) (s : σ) (dev : Fcd) {data : Bytes} {start stop : UInt32}
    (hreg : Regular start stop) (hfit : stop.toNat ≤ data.length) :
    Program.Runs h (Program.scan (writeBody dev data) (addresses start (blockCount start stop))) s
      (if (perform h (blockRequests dev data start stop) s).1.all Transaction.succeeded then none
        else some (-5))
      (perform h (blockRequests dev data start stop) s).2
      ((perform h (blockRequests dev data start stop) s).1.flatMap Transaction.events) := by
  have hend := hreg.mul_blockCount
  have hlt := stop.toNat_lt
  rw [blockRequests, ← map_addresses data (by omega), List.map_map]
  refine scan_perform (fun addr ha s => ?_) s
  have := le_of_mem_addresses (Nat.le_of_eq hend) hlt ha
  exact writeBody_runs h s dev data addr (by omega)

/-- A sane range has blocks, so some block is always asked for. -/
theorem blockRequests_ne_nil (h : Host σ) (s : σ) (dev : Fcd) (data : Bytes)
    {start stop : UInt32} (hreg : Regular start stop) :
    (perform h (blockRequests dev data start stop) s).1 ≠ [] := by
  have hpos : 0 < blockCount start stop := by
    have := hreg.mul_blockCount
    have := hreg.1
    omega
  cases hqs : blockRequests dev data start stop with
  | nil => simp [blockRequests, blocksOf] at hqs; omega
  | cons q qs =>
    obtain ⟨rest, hrest⟩ := perform_cons h q qs s
    simp [hrest]

/-- Past the checks a write performs its requests. -/
theorem fcdBlFlashWrite_sane (h : Host σ) (s : σ) (host : Endian) (dev : Fcd) {data : Bytes}
    {size start stop : UInt32} (hsize : size.toNat ≤ data.length)
    (hx : rangeIn dev (converse h (rangeRequest dev) s).1 = some (start, stop))
    (hs : Sane start stop size) :
    let p := perform h (writeRequests dev data start stop) (converse h (rangeRequest dev) s).2
    Program.Runs h (fcdBlFlashWrite host (some dev) data size) s (writeResult p.1) p.2
      ((converse h (rangeRequest dev) s).1.events (rangeRequest dev) ++
        p.1.flatMap Transaction.events) := by
  generalize ht : (converse h (rangeRequest dev) s).2 = t
  rw [fcdBlFlashWrite_eq]
  cases hq : (⟨addressRequest dev start, (converse h (addressRequest dev start) t).1⟩ :
      Transaction).succeeded with
  | false =>
    have hrun := sweep_no_address h s host dev size (writeBody dev data) hx hs rfl ht.symm hq
    simp only [writeRequests, perform_of_failed hq]
    simpa [writeResult, hq, Transaction.events] using hrun
  | true =>
    have hblocks := blocks_perform h (converse h (addressRequest dev start) t).2 dev hs.1
      (Nat.le_trans hs.2 hsize)
    have hne := blockRequests_ne_nil h (converse h (addressRequest dev start) t).2 dev data hs.1
    have hrun := sweep_through h s host dev size (writeBody dev data) hx hs rfl ht.symm hq hblocks
    simp only [writeRequests, perform_of_succeeded hq]
    refine Eq.subst (motive := fun r => Program.Runs h _ s r _ _) ?_ hrun
    simp only [writeResult, List.all_cons, hq, Bool.true_and, List.length_cons, Nat.add_eq_right,
      List.length_eq_zero_iff, hne, if_false]
    split <;> rfl

/-- What a write may do on the wire. `first` is its first transaction, `rest`
those behind it. -/
structure WriteTrace (dev : Fcd) (data : Bytes) (size : UInt32) (result : Int)
    (first : Transaction) (rest : List Transaction) : Prop where
  first_range : first.request = rangeRequest dev
  sane : ∀ start stop, rangeIn dev first.exchange = some (start, stop) → Sane start stop size →
    UntilFailure (writeRequests dev data start stop) rest
  refused : (∀ start stop, rangeIn dev first.exchange = some (start, stop) →
    ¬ Sane start stop size) → rest = []
  success : result = 0 ↔ ∃ start stop, rangeIn dev first.exchange = some (start, stop) ∧
    Sane start stop size ∧ rest.map Transaction.request = writeRequests dev data start stop ∧
    ∀ t ∈ rest, t.succeeded = true
  payload : result = 0 → ∀ start stop, rangeIn dev first.exchange = some (start, stop) →
    (rest.tail.map (fun t => t.request.report.drop 3)).flatten =
      data.extract start.toNat stop.toNat
  on_wire : reports ((first :: rest).flatMap Transaction.events) =
    ((first :: rest).filter Transaction.sent).map (fun t => t.request.report)

/-- Without a range that passes the checks there is nothing behind the range
request, and the write fails. -/
theorem writeTrace_refused {dev : Fcd} {x : Exchange} {size : UInt32} (data : Bytes)
    (hx : ∀ start stop, rangeIn dev x = some (start, stop) → ¬ Sane start stop size) {result : Int}
    (hr : result ≠ 0) : WriteTrace dev data size result ⟨rangeRequest dev, x⟩ [] where
  first_range := rfl
  sane start stop hrange hs := absurd hs (hx start stop hrange)
  refused _ := rfl
  success := by
    apply iff_of_false hr
    intro hsome
    obtain ⟨start, stop, hrange, hs, -⟩ := hsome
    exact hx start stop hrange hs
  payload h := absurd h hr
  on_wire := reports_transactions _

theorem writeResult_eq_zero {ts : List Transaction} :
    writeResult ts = 0 ↔ ∀ t ∈ ts, t.succeeded = true := by
  rw [← List.all_eq_true, writeResult]
  cases ts.all Transaction.succeeded with
  | true => simp
  | false => by_cases hl : ts.length = 1 <;> simp [hl]

/-- The blocks of a range, put together, are the stretch of the image. -/
theorem payload_writeRequests (dev : Fcd) (data : Bytes) {start stop : UInt32}
    (hreg : Regular start stop) :
    ((writeRequests dev data start stop).tail.map (fun q => q.report.drop 3)).flatten =
      data.extract start.toNat stop.toNat := by
  have hmap : ∀ blocks : List Bytes,
      (blocks.map (blockRequest dev)).map (fun q => q.report.drop 3) = blocks := by
    intro blocks
    simp [blockRequest, Function.comp_def]
  simp only [writeRequests, List.tail_cons, blockRequests, hmap, flatten_blocksOf,
    hreg.mul_blockCount]

theorem writeTrace_sane {dev : Fcd} {x : Exchange} {start stop size : UInt32} {data : Bytes}
    {rest : List Transaction} (hx : rangeIn dev x = some (start, stop)) (hs : Sane start stop size)
    (hrest : UntilFailure (writeRequests dev data start stop) rest) :
    WriteTrace dev data size (writeResult rest) ⟨rangeRequest dev, x⟩ rest where
  first_range := rfl
  sane start' stop' hrange _ := by
    obtain ⟨rfl, rfl⟩ := rangeIn_unique hx hrange
    exact hrest
  refused hno := absurd hs (hno start stop hx)
  success := by
    rw [writeResult_eq_zero]
    constructor
    · intro hall
      exact ⟨start, stop, hx, hs, hrest.requests hall, hall⟩
    · exact fun ⟨_, _, _, _, _, hall⟩ => hall
  payload h start' stop' hrange := by
    obtain ⟨rfl, rfl⟩ := rangeIn_unique hx hrange
    have hreqs := hrest.requests (writeResult_eq_zero.mp h)
    have hpay := payload_writeRequests dev data hs.1
    rw [← hreqs, ← List.map_tail, List.map_map] at hpay
    exact hpay
  on_wire := reports_transactions _

/-- The exact wire trace of a flash write against any surroundings. -/
theorem fcdBlFlashWrite_trace (h : Host σ) (s : σ) (host : Endian) (dev : Fcd) (data : Bytes)
    (size : UInt32) (hsize : data.length = size.toNat) :
    ∃ result t first rest, Program.Runs h (fcdBlFlashWrite host (some dev) data size) s result t
      ((first :: rest).flatMap Transaction.events) ∧
      WriteTrace dev data size result first rest := by
  let x := (converse h (rangeRequest dev) s).1
  rcases sweep_stops_or_sane h s host dev size (writeBody dev data) with
    ⟨result, hrun, hcode, hx⟩ | ⟨start, stop, hx, hs⟩
  · rw [← fcdBlFlashWrite_eq, ← List.append_nil (Exchange.events _ _)] at hrun
    exact ⟨_, _, ⟨rangeRequest dev, x⟩, [], hrun, writeTrace_refused data hx (by omega)⟩
  · have hrun := fcdBlFlashWrite_sane h s host dev (Nat.le_of_eq hsize.symm) hx hs
    exact ⟨_, _, ⟨rangeRequest dev, x⟩, _, hrun,
      writeTrace_sane hx hs (perform_untilFailure h _ _)⟩

theorem fcdBlFlashWrite_trace_one_block :
    ∃ result t first rest,
      Program.Runs (Link.host (Boot.serve id))
        (fcdBlFlashWrite .little (some ⟨0, "dongle", 1⟩) (List.replicate 48 7) 48)
        ⟨oneBlock, [], []⟩ result t ((first :: rest).flatMap Transaction.events) ∧
      WriteTrace ⟨0, "dongle", 1⟩ (List.replicate 48 7) 48 result first rest :=
  fcdBlFlashWrite_trace (Link.host (Boot.serve id)) ⟨oneBlock, [], []⟩ .little ⟨0, "dongle", 1⟩
    (List.replicate 48 7) 48 (by decide)

end Libfcd.Proofs
