import Libfcd.Proofs.Silence
import Libfcd.Proofs.Stack
import Libfcd.Proofs.WriteTrace

namespace Libfcd.Proofs
open Interaction Memory Hidapi Devices
open Model (Call Happening Fcd)

/-- The data of a transfer to a device. -/
def transferred (es : List UsbHappening) : List Bytes :=
  es.flatMap (fun
    | ⟨.controlTransfer _ _ _ _ _ data _, _⟩ => [data]
    | ⟨.interruptTransfer _ _ data _, _⟩ => [data]
    | _ => [])

theorem transferred_append (es es' : List UsbHappening) :
    transferred (es ++ es') = transferred es ++ transferred es' := List.flatMap_append ..

theorem transferred_silent {es : List UsbHappening} (h : ∀ e ∈ es, Silent e.1) :
    transferred es = [] := by
  refine List.flatMap_eq_nil_iff.mpr (fun e he => ?_)
  obtain ⟨c, r⟩ := e
  cases c with
  | controlTransfer handle requestType request value index data timeout => cases h _ he
  | interruptTransfer handle endpoint data timeout => cases h _ he
  | _ => rfl

/-- What goes out for a call of the library. -/
def outgoing : Happening → List Bytes
  | ⟨.hidWrite _ data, _⟩ => [onWire data]
  | _ => []

theorem reports_onWire (es : List Happening) :
    (reports es).map onWire = es.flatMap outgoing := by
  induction es with
  | nil => rfl
  | cons e es ih =>
    rw [← List.singleton_append, reports_append, List.map_append, ih, List.flatMap_append]
    congr 1
    obtain ⟨c, r⟩ := e
    cases c <;> rfl

section

variable {α σ : Type} {host : Endian} {h : UsbHost σ} {t t' : Stack} {s s' : σ}

/-- One transfer is made of a report. -/
theorem hidWrite_transferred {dev : HidDevice} {data : Bytes} {res : Int}
    (hrun : (hidWrite dev data).run h s = some (res, s')) :
    transferred ((hidWrite dev data).events h s) = [onWire data] := by
  cases hhandle : dev.deviceHandle with
  | none =>
    rw [hidWrite, hhandle] at hrun
    cases hrun
  | some handle =>
    cases data with
    | nil =>
      rw [hidWrite, hhandle] at hrun
      cases hrun
    | cons reportNumber rest =>
      have hwire : (if reportNumber = 0 then rest else reportNumber :: rest) =
          onWire (reportNumber :: rest) := by
        simp [onWire]
      simp only [hidWrite, hhandle, Program.expect_some, Program.done_bind, List.head?_cons,
        List.tail_cons, hwire]
      split <;> rfl

/-- Each call of hidapi's sends what it should and nothing else. -/
theorem hidLibusb_sends {c : Call} {r : c.Answer}
    (hrun : (hidLibusb host c t).run h s = some ((r, t'), s')) :
    transferred ((hidLibusb host c t).events h s) = outgoing ⟨c, r⟩ := by
  by_cases hwrite : ∃ dev data, c = .hidWrite dev data
  · obtain ⟨d, data, rfl⟩ := hwrite
    change (Program.expect (t.devices.lookup d) >>= fun dev =>
      hidWrite dev data >>= fun res => pure (res, t)).run h s = _ at hrun
    change transferred ((Program.expect (t.devices.lookup d) >>= fun dev =>
      hidWrite dev data >>= fun res => pure (res, t)).events h s) = _
    cases hdev : t.devices.lookup d with
    | none =>
      rw [hdev] at hrun
      cases hrun
    | some dev =>
      rw [hdev, Program.expect_some, Program.done_bind, Program.run_bind] at hrun
      obtain ⟨⟨res, u⟩, hsent, -⟩ := Option.bind_eq_some_iff.mp hrun
      rw [Program.expect_some, Program.done_bind, Program.events_bind_of_run hsent,
        transferred_append, hidWrite_transferred hsent]
      rfl
  · by_cases hprint : ∃ stream text, c = .print stream text
    · obtain ⟨stream, text, rfl⟩ := hprint
      rfl
    · have hsilent := hidLibusb_silent host (fun dev data hc => hwrite ⟨dev, data, hc⟩)
        (fun stream text hc => hprint ⟨stream, text, hc⟩) t
      rw [transferred_silent (hsilent.calls ⟨hrun, rfl⟩).1]
      cases c with
      | hidWrite dev data => exact absurd ⟨dev, data, rfl⟩ hwrite
      | _ => rfl

theorem transferred_implement {p : Model.Hid α} (any : (c : Call) → c.Answer) {a : α}
    (hrun : ((hidLibusb host).implement p t).run h s = some ((a, t'), s')) :
    transferred (((hidLibusb host).implement p t).events h s) =
      (reports (p.events ((hidLibusb host).answers any h) (t, s))).map onWire := by
  rw [reports_onWire]
  refine Layer.events_answers (fun c t s x s' hcall => ?_) hrun
  exact hidLibusb_sends hcall

/-- Programs of the library on top of `hid-libusb.c`. What goes out on the bus in a run
that comes to its end are the reports that the program writes, on the host of hidapi
that answers as `hid-libusb.c` does: one transfer for each and no other, in the same
order, each without a report ID of zero. -/
theorem stack_sends (host : Endian) (p : Model.Hid α) {h : UsbHost σ}
    (any : (c : Call) → c.Answer) {t t' : Stack} {s s' : σ} {a : α}
    (hrun : ((hidLibusb host).implement p t).run h s = some ((a, t'), s')) :
    let hid : Model.Host (Stack × σ) := (hidLibusb host).answers any h
    p.run hid (t, s) = some (a, (t', s')) ∧
      transferred (((hidLibusb host).implement p t).events h s) =
        (reports (p.events hid (t, s))).map onWire :=
  ⟨Layer.run_answers hrun, transferred_implement any hrun⟩

end

theorem erase_on_bus : ((hidLibusb .little).implement
    (Model.fcdBlEraseApplication (some ⟨0, "0001:0004:02", 1⟩)) Stack.start).run
      (Bus.host (Boot.serve id)) ⟨oneBlock, []⟩ =
    some ((.ok (), ⟨true, [], []⟩), ⟨oneBlock, []⟩) := rfl

theorem stack_sends_erase :
    let p := Model.fcdBlEraseApplication (some ⟨0, "0001:0004:02", 1⟩)
    let hid : Model.Host (Stack × Bus Boot) :=
      (hidLibusb .little).answers Bus.elsewhere (Bus.host (Boot.serve id))
    p.run hid (Stack.start, ⟨oneBlock, []⟩) = some (.ok (), (⟨true, [], []⟩, ⟨oneBlock, []⟩)) ∧
      transferred (((hidLibusb .little).implement p Stack.start).events (Bus.host (Boot.serve id))
        ⟨oneBlock, []⟩) = (reports (p.events hid (Stack.start, ⟨oneBlock, []⟩))).map onWire ∧
      reports (p.events hid (Stack.start, ⟨oneBlock, []⟩)) = [[0, 24]] := by
  obtain ⟨hrun, hsent⟩ := stack_sends .little
    (Model.fcdBlEraseApplication (some ⟨0, "0001:0004:02", 1⟩)) Bus.elsewhere erase_on_bus
  exact ⟨hrun, hsent, rfl⟩

/-- What transactions put on the bus that all succeeded. -/
theorem onWire_succeeded {ts : List Transaction} (h : ∀ t ∈ ts, t.succeeded = true) :
    (reports (ts.flatMap Transaction.events)).map onWire =
      ts.map (fun t => onWire t.request.report) := by
  have hsent : ts.filter Transaction.sent = ts :=
    List.filter_eq_self.mpr (fun t ht => Transaction.sent_of_succeeded (h t ht))
  rw [reports_transactions, hsent, List.map_map]
  rfl

/-- A flash write that returns 0, seen from the bus: one transfer that asks for the
range, one that sets its start, and then one for each block, which together are the
stretch of the image, in order. -/
theorem flashWrite_on_bus {σ : Type} (host : Endian) (dev : Fcd) {data : Bytes} {size : UInt32}
    (hsize : data.length = size.toNat) {h : UsbHost σ}
    {t t' : Stack} {s s' : σ}
    (hrun : ((hidLibusb host).implement (Model.fcdBlFlashWrite host (some dev) data size) t).run
      h s = some ((0, t'), s')) :
    ∃ (start stop : UInt32) (blocks : List Bytes), Sane start stop size ∧
      blocks.flatten = data.extract start.toNat stop.toNat ∧
      (∀ block ∈ blocks, block.length = 48) ∧
      transferred (((hidLibusb host).implement
        (Model.fcdBlFlashWrite host (some dev) data size) t).events h s) =
        [26] :: (25 :: leBytes 4 start.toNat) :: blocks.map (fun block => 27 :: 0 :: block) := by
  have hresult : Program.run ((hidLibusb host).answers Bus.elsewhere h) _ _ = _ :=
    Layer.run_answers hrun
  have hsent := transferred_implement Bus.elsewhere hrun
  generalize (hidLibusb host).answers Bus.elsewhere h = hid at hresult hsent
  rcases sweep_stops_or_sane hid (t, s) host dev size (writeBody dev data) with
    ⟨result, hstop, hcode, -⟩ | ⟨start, stop, hx, hs⟩
  · have heq := hstop.run
    rw [← fcdBlFlashWrite_eq, hresult] at heq
    have hzero : (0 : Int) = result := (Prod.mk.inj (Option.some.inj heq)).1
    omega
  · have hwrite := fcdBlFlashWrite_sane hid (t, s) host dev (Nat.le_of_eq hsize.symm) hx hs
    have heq := hwrite.run
    rw [hresult] at heq
    have hzero := (Prod.mk.inj (Option.some.inj heq)).1.symm
    have hall := writeResult_eq_zero.mp hzero
    have hreqs := (perform_untilFailure hid (writeRequests dev data start stop) _).requests hall
    refine ⟨start, stop, blocksOf 48 data start.toNat (blockCount start stop), hs, ?_, ?_, ?_⟩
    · rw [flatten_blocksOf, hs.1.mul_blockCount]
    · intro block hblock
      refine length_of_mem_blocksOf ?_ hblock
      rw [hs.1.mul_blockCount, hsize]
      exact hs.2
    · have hrange : (⟨rangeRequest dev, (converse hid (rangeRequest dev) (t, s)).1⟩ :
          Transaction).succeeded = true := by
        by_contra hfailed
        rw [rangeIn_eq_none.mpr (Bool.eq_false_iff.mpr hfailed)] at hx
        cases hx
      have hfirst := onWire_succeeded (List.forall_mem_singleton.mpr hrange)
      rw [List.flatMap_singleton] at hfirst
      have hrest := congrArg (List.map (fun q : Request => onWire q.report)) hreqs
      rw [List.map_map] at hrest
      rw [hsent, hwrite.events, reports_append, List.map_append, onWire_succeeded hall]
      refine congrArg₂ (· ++ ·) hfirst (hrest.trans ?_)
      simp [writeRequests, blockRequests, blockRequest, addressRequest, onWire, Function.comp_def]

theorem flashWrite_on_bus_one_block :
    let p := (hidLibusb .little).implement (Model.fcdBlFlashWrite .little
      (some ⟨0, "0001:0004:02", 1⟩) (List.replicate 48 7) 48) Stack.start
    let sent := transferred (p.events (Bus.host (Boot.serve id)) ⟨oneBlock, []⟩)
    sent = [[26], [25, 0, 0, 0, 0], 27 :: 0 :: List.replicate 48 7] ∧
      ∃ (start stop : UInt32) (blocks : List Bytes), Sane start stop 48 ∧
        blocks.flatten = (List.replicate 48 7).extract start.toNat stop.toNat ∧
        (∀ block ∈ blocks, block.length = 48) ∧
        sent =
          [26] :: (25 :: leBytes 4 start.toNat) :: blocks.map (fun block => 27 :: 0 :: block) :=
  ⟨rfl, flashWrite_on_bus .little ⟨0, "0001:0004:02", 1⟩ (by decide)
    (show _ = some ((0, ⟨true, [], []⟩), ⟨oneBlock.storeBlock (List.replicate 48 7), []⟩) from rfl)⟩

end Libfcd.Proofs
