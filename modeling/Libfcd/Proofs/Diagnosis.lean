import Libfcd.Model.Diagnose
import Libfcd.Proofs.Conversation
import Libfcd.Proofs.Opening
import Libfcd.Proofs.Query

namespace Libfcd.Proofs
open Interaction Memory Model Devices

variable {σ β : Type} {h : Host σ}

/-- The requests of the diagnostic callback on a dongle whose range begins at
`start`: the only address it sets is that one. -/
def DebugAsks (start : UInt32) (q : Request) : Prop :=
  q.command = fcdCmdQuery ∨ q.command = fcdCmdGetByteAddrRange ∨ q.command = fcdCmdReadBlock ∨
    ∃ dev, q = addressRequest dev start

/-- A range that is given begins at `start`. -/
def RangeFrom (start : UInt32) (q : Request) (x : Exchange) : Prop :=
  ∀ dev range, q = rangeRequest dev → rangeIn dev x = some range → range.1 = start

variable {asks : Request → Prop} {tells : Request → Exchange → Prop}

/-- The look that `fcd_open` takes at a device: opened, its path copied, closed. -/
def look (path : String) : Hid (Option (Option Nat)) := do
  match ← hidOpenPath path with
  | none => pure none
  | some dev => do
    let copy ← strdup path none
    hidClose (some dev)
    pure (some copy)

theorem look_whole (path : String) (s : σ) : ∃ r t es,
    Program.Runs h (look path) s r t es ∧ exchanges.Whole es ∧ reports es = [] := by
  rcases ho : opening h path s with ⟨_ | dev, s1⟩
  · exact ⟨none, s1, _, runs_open ho (.done h _ _), .inl ⟨_, rfl, rfl⟩, rfl⟩
  · rcases hc : copying h path s1 with ⟨copy, s2⟩
    exact ⟨some copy, closing h dev s2, _, runs_open ho (runs_strdup hc (.call (.done h _ _))),
      .inr ⟨_, [⟨.strdup path none, copy⟩], _, rfl, rfl, by simp [exchanges], rfl⟩, rfl⟩

theorem keepPath_converses (addr : Nat) (kept : Option (String × Option Nat)) :
    Converses h asks tells (keepPath addr kept) := by
  rcases kept with _ | ⟨path, _ | pathAddr⟩
  · exact .call (fun _ => ⟨rfl, rfl⟩) (fun _ => .done _)
  · exact .call (fun _ => ⟨rfl, rfl⟩) (fun _ => .done _)
  · exact .done _

theorem fcdOpen_converses (path : String) : Converses h asks tells (fcdOpen (some path)) := by
  refine .call (fun _ => ⟨rfl, rfl⟩) (fun addr => ?_)
  cases addr with
  | none => exact .done _
  | some addr =>
    have hlook : Converses h asks tells (look path >>= fun
        | none => hidClose none >>= fun _ => keepPath addr none
        | some copy => keepPath addr (some (path, copy))) := by
      refine .quiet (look_whole path) (fun found => ?_)
      cases found with
      | none => exact .call (fun _ => ⟨rfl, rfl⟩) (fun _ => keepPath_converses addr none)
      | some copy => exact keepPath_converses addr (some (path, copy))
    refine Eq.subst (motive := Converses h asks tells) ?_ hlook
    refine congrArg (Program.call (Call.hidOpenPath path)) (funext fun dev => ?_)
    cases dev <;> rfl

theorem fcdClose_converses (dev : Fcd) : Converses h asks tells (fcdClose (some dev)) :=
  .call (fun _ => ⟨rfl, rfl⟩) (fun _ => .call (fun _ => ⟨rfl, rfl⟩) (fun _ => .done _))

theorem printBlock_converses (block : List (UInt8 × Nat)) :
    Converses h asks tells (printBlock block) := by
  induction block with
  | nil => exact .done _
  | cons x rest ih => exact .call (fun _ => ⟨rfl, rfl⟩) (fun _ => ih)

/-- What the caller of `fcd_bl_read_block` is left with. -/
def blockRead : Except Errno Bytes → Status × Option Buffer
  | .error e => (.error e, some (Buffer.fresh 48))
  | .ok bytes => (.ok (), some (bytes.map some))

/-- What the caller of `fcd_query` is left with. -/
def queryRead (b : Buffer) : Except Errno Bytes → Bool × Option Buffer
  | .error _ => (false, some b)
  | .ok bytes => (true, some (answered b bytes))

/-- Setting the address to the start of the range and reading a block there. -/
def readStart (host : Endian) (fcd : Fcd) (start : UInt32) : Hid Int := do
  let _ ← fcdBlSetAddress host (some fcd) start
  match ← fcdBlReadBlock (some fcd) (some (Buffer.fresh 48)) with
  | (.error _, _) => pure 0
  | (.ok (), block) => do
    let block ← .expect (block.bind Buffer.written)
    printBlock block.zipIdx
    pure 0

theorem readStart_converses (host : Endian) (fcd : Fcd) (start : UInt32) :
    Converses h (DebugAsks start) (RangeFrom start) (readStart host fcd start) := by
  refine .exchange _ _ (.inr (.inr (.inr ⟨fcd, rfl⟩)))
    (fun s => fcdBlSetAddress_spec h s host fcd start) (fun _ _ => ?_)
  refine .exchange _ (fun x => blockRead (x.outcome (readRequest fcd))) (.inr (.inr (.inl rfl)))
    (fun s => fcdBlReadBlock_spec h s fcd) (fun x _ => ?_)
  cases x.outcome (readRequest fcd) with
  | error e => exact .done _
  | ok bytes =>
    simp only [blockRead, Option.bind_some, Buffer.written_map_some, Program.expect_some,
      Program.done_bind]
    exact (printBlock_converses _).bind (fun _ => .done _)

theorem expect_converses (o : Option β) : Converses h asks tells (Program.expect o) := by
  cases o with
  | none => exact .wrong
  | some x => exact .done x

theorem diagnose_converses (host : Endian) {query : Bytes} (hquery : query.length = 64)
    (path : String) (fcd : Fcd) (start : UInt32) :
    Converses h (DebugAsks start) (RangeFrom start) (diagnose host query path fcd) := by
  have hlen : (query.map some).length = (64 : Int32).toInt.toNat := by
    simpa using hquery
  refine .exchange _ (fun x => queryRead (query.map some)
    (x.outcome (queryRequest fcd (query.map some).length))) (.inl rfl)
    (fun s => fcdQuery_spec h s fcd (by decide) hlen) (fun x _ => ?_)
  cases x.outcome (queryRequest fcd (query.map some).length) with
  | error e => exact .call (fun _ => ⟨rfl, rfl⟩) (fun _ => .done _)
  | ok bytes =>
    refine (expect_converses _).bind (fun text => .call (fun _ => ⟨rfl, rfl⟩) (fun _ => ?_))
    refine .exchange (p := fcdBlGetAddressRange host (some fcd)) (rangeRequest fcd)
      (fun x => (x.outcome (rangeRequest fcd)).map rangeOf) (.inr (.inl rfl))
      (fun s => fcdBlGetAddressRange_spec h s host fcd) (fun y hy => ?_)
    cases ho : y.outcome (rangeRequest fcd) with
    | error e => exact .done _
    | ok bytes =>
      obtain rfl := hy fcd (rangeOf bytes) rfl (by simp [rangeIn, ho, Except.toOption])
      exact .call (fun _ => ⟨rfl, rfl⟩) (fun _ => readStart_converses host fcd _)

/-- Against a dongle the diagnostic callback is a series of such exchanges. -/
theorem funcubeDebug_converses (host : Endian) {query : Bytes} (hquery : query.length = 64)
    (path : String) (start : UInt32) :
    Converses h (DebugAsks start) (RangeFrom start) (funcubeDebug host query path ()) := by
  apply (fcdOpen_converses path).bind
  intro fcd
  cases fcd with
  | none => exact .call (fun _ => ⟨rfl, rfl⟩) (fun _ => .done _)
  | some fcd =>
    apply (diagnose_converses host hquery path fcd start).bind
    intro result
    exact (fcdClose_converses fcd).bind (fun _ => .done _)

end Libfcd.Proofs
