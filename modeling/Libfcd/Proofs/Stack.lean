import Libfcd.Hidapi.Stack
import Libfcd.Proofs.Handles
import Libfcd.Proofs.OpenPath

namespace Libfcd.Proofs
open Interaction Memory Hidapi Devices
open Model (Call)

theorem useEndpoint_handle (dev : HidDevice) (ep : EndpointDescriptor) :
    (dev.useEndpoint ep).deviceHandle = dev.deviceHandle ∧
      (dev.useEndpoint ep).interface = dev.interface ∧ (dev.useEndpoint ep).addr = dev.addr := by
  simp only [HidDevice.useEndpoint]
  split <;> split <;> exact ⟨rfl, rfl, rfl⟩

theorem useEndpoints_handle (eps : List EndpointDescriptor) (dev : HidDevice) :
    (eps.foldl HidDevice.useEndpoint dev).deviceHandle = dev.deviceHandle ∧
      (eps.foldl HidDevice.useEndpoint dev).interface = dev.interface ∧
      (eps.foldl HidDevice.useEndpoint dev).addr = dev.addr := by
  induction eps generalizing dev with
  | nil => exact ⟨rfl, rfl, rfl⟩
  | cons ep eps ih =>
    obtain ⟨hhandle, hinterface, haddr⟩ := useEndpoint_handle dev ep
    obtain ⟨ihhandle, ihinterface, ihaddr⟩ := ih (dev.useEndpoint ep)
    exact ⟨ihhandle.trans hhandle, ihinterface.trans hinterface, ihaddr.trans haddr⟩

section

variable (addr : Nat) (handle : UsbHandle) (transfer : Transfer) (x : Seen × InterfaceDescriptor)

@[simp] theorem deviceOn_deviceHandle :
    (deviceOn addr handle transfer x).deviceHandle = some handle := (useEndpoints_handle _ _).1

@[simp] theorem deviceOn_interface :
    (deviceOn addr handle transfer x).interface = x.2.bInterfaceNumber :=
  (useEndpoints_handle _ _).2.1

@[simp] theorem deviceOn_addr : (deviceOn addr handle transfer x).addr = addr :=
  (useEndpoints_handle _ _).2.2

@[simp] theorem deviceOn_transfer : (deviceOn addr handle transfer x).transfer = some transfer :=
  rfl

end

/-- A device whose handle is the newest that is open, claimed and read from. -/
def Live (dev : HidDevice) (books : Books) : Prop :=
  ∃ handle transfer usbDev sent, dev.deviceHandle = some handle ∧ dev.transfer = some transfer ∧
    books = (Books.idle sent).push
      ⟨handle, usbDev, some dev.interface, true, some transfer.addr⟩

/-- The HID handle that is open above is one libusb handle below, with its interface
claimed, its thread running and its transfer; nothing else is kept between the calls. -/
def Backed (w : Ledger) (t : Stack) (v : View) : Prop :=
  match w.opened with
  | none => ∃ sent, v.books = .idle sent
  | some d => ∃ dev, t.devices.lookup d = some dev ∧ Live dev v.books

/-- Only the handle that is open above and the books below matter. -/
theorem Backed.congr {w w' : Ledger} {t t' : Stack} {v v' : View} (h : Backed w t v)
    (hw : w'.opened = w.opened) (ht : t'.devices = t.devices) (hv : v'.books = v.books) :
    Backed w' t' v' := by
  unfold Backed at h ⊢
  rw [hw, ht, hv]
  exact h

section Calls

variable {host : Endian} {w : Ledger} {t : Stack} {v : View} {d : Model.Handle}

/-- The terms of the stack: a walk along the bus tells devices apart. -/
abbrev stackTerms : Terms UsbCall UsbCall.Answer View := usbTerms Distinct True

theorem hidOpenPath_carries (path : String) (h : Backed w t v) (hw : w.opened = none) :
    Program.Keeps stackTerms (hidLibusb host (.hidOpenPath path) t) v
      (fun x v' => Backed ⟨x.1, w.lists⟩ x.2 v') := by
  obtain ⟨sent, hbooks⟩ : ∃ sent, v.books = .idle sent := by simpa only [Backed, hw] using h
  refine (hidOpenPath_keeps (fun _ _ => .inl trivial) (fun _ hd => hd) (fun _ _ => .inl trivial)
    path t.usbContext).bind (fun r v' hr => ?_)
  obtain ⟨dev, usbContext⟩ := r
  cases hr.1 with
  | notSetUp _ _ _ _ hbooks' => exact ⟨sent, hbooks'.trans hbooks⟩
  | nowhere _ _ hbooks' => exact ⟨sent, hbooks'.trans hbooks⟩
  | refused _ _ _ _ hbooks' => exact ⟨sent, hbooks'.trans hbooks⟩
  | ready _ addr handle transfer x _ hbooks' =>
    refine ⟨deviceOn addr handle transfer x, by simp, handle, transfer, x.1.dev, sent, ?_, rfl, ?_⟩
    · simp
    · simpa [hbooks, handleOn] using hbooks'

/-- The device behind the handle that is open above. -/
theorem Backed.device (h : Backed w t v) (hw : w.opened = some d) :
    ∃ dev, t.devices.lookup d = some dev ∧ Live dev v.books := by
  simpa only [Backed, hw] using h

/-- What goes out for a report: a report ID of zero is left out. -/
def onWire (report : Bytes) : Bytes := if report.head? = some 0 then report.tail else report

/-- One transfer is made of a report. -/
theorem hidWrite_keeps {grants : UsbHappening → Prop} {dev : HidDevice} {handle : UsbHandle}
    (hhandle : dev.deviceHandle = some handle) (huse : v.books.inUse handle) (data : Bytes) :
    Program.Keeps (usbTerms grants True) (hidWrite dev data) v (fun _ v' =>
      v'.books = { v.books with sent := v.books.sent ++ [onWire data] }) := by
  unfold hidWrite
  rw [hhandle, Program.expect_some, Program.done_bind]
  cases data with
  | nil => exact trivial
  | cons reportNumber rest =>
    have hwire : (if reportNumber = 0 then rest else reportNumber :: rest) =
        onWire (reportNumber :: rest) := by
      simp [onWire]
    simp only [List.head?_cons, Program.expect_some, Program.done_bind, List.tail_cons, hwire]
    split
    · exact fun res _ => ⟨_, View.require_pos huse _, rfl⟩
    · exact fun res _ => ⟨_, View.require_pos huse _, rfl⟩

theorem hidWrite_carries (data : Bytes) (h : Backed w t v) (hw : w.opened = some d) :
    Program.Keeps stackTerms (hidLibusb host (.hidWrite d data) t) v
      (fun x v' => Backed w x.2 v') := by
  obtain ⟨dev, hdev, handle, transfer, usbDev, sent, hhandle, htransfer, hbooks⟩ := h.device hw
  have huse : v.books.inUse handle := by simp [hbooks, Books.push, Books.inUse]
  change Program.Keeps stackTerms (Program.expect (t.devices.lookup d) >>= fun dev =>
    hidWrite dev data >>= fun res => pure (res, t)) v _
  rw [hdev, Program.expect_some, Program.done_bind]
  refine (hidWrite_keeps hhandle huse data).bind (fun res v' hv' => ?_)
  simp only [Backed, hw]
  refine ⟨dev, hdev, handle, transfer, usbDev, sent ++ [onWire data], hhandle, htransfer, ?_⟩
  rw [hv', hbooks]
  rfl

theorem hidRead_carries (length : Nat) (h : Backed w t v) (hw : w.opened = some d) :
    Program.Keeps stackTerms (hidLibusb host (.hidRead d length) t) v
      (fun x v' => Backed w x.2 v') := by
  obtain ⟨dev, hdev, handle, transfer, usbDev, sent, hhandle, htransfer, hbooks⟩ := h.device hw
  have huse : v.books.inUse handle := by simp [hbooks, Books.push, Books.inUse]
  change Program.Keeps stackTerms (Program.expect (t.devices.lookup d) >>= fun dev =>
    hidRead dev length >>= fun received => pure (received, t)) v _
  rw [hdev, Program.expect_some, Program.done_bind]
  unfold hidRead
  rw [hhandle, Program.expect_some, Program.done_bind]
  exact fun received _ => ⟨_, View.require_pos huse _, h⟩

theorem freeIfAny_keeps (block : Option Nat) (u : View) :
    Program.Keeps stackTerms (freeIfAny block) u (fun _ u' => u' = u) := by
  cases block with
  | none => exact rfl
  | some block => exact fun _ _ => ⟨_, rfl, rfl⟩

/-- The thread is stopped, and then its transfer, the claim and the handle go. -/
theorem hidClose_keeps {dev : HidDevice} {handle : UsbHandle} {transfer : Transfer}
    {usbDev : UsbDevice} {base : Books} (hhandle : dev.deviceHandle = some handle)
    (htransfer : dev.transfer = some transfer)
    (hv : v.books = base.push ⟨handle, usbDev, some dev.interface, true, some transfer.addr⟩) :
    Program.Keeps stackTerms (hidClose dev) v (fun _ v' => v'.books = base) := by
  unfold hidClose
  rw [hhandle, htransfer, Program.expect_some, Program.done_bind, Program.expect_some,
    Program.done_bind]
  refine Program.Keeps.perform (fun _ _ => ⟨_, View.require_pos ?_ _, ?_⟩)
  · simp [hv, Books.push, Books.inUse]
  refine (freeIfAny_keeps transfer.buffer _).bind (fun _ u hu => ?_)
  have hstopped : u.books =
      base.push ⟨handle, usbDev, some dev.interface, false, some transfer.addr⟩ := by
    simp [hu, hv, Books.push, Books.amend]
  refine Program.Keeps.perform (fun _ _ => ⟨_, View.require_pos ?_ _, ?_⟩)
  · simp [hstopped, Books.push]
  refine Program.Keeps.perform (fun _ _ => ⟨_, View.require_pos ?_ _, ?_⟩)
  · simp [hstopped, Books.push, Books.amend, Books.newest]
  refine Program.Keeps.perform (fun _ _ => ⟨_, View.require_pos ?_ _, fun _ _ =>
    ⟨_, rfl, show _ = base from ?_⟩⟩)
  · simp [hstopped, Books.push, Books.amend, Books.newest]
  · simp [hstopped, Books.push, Books.amend]

theorem hidClose_carries (h : Backed w t v) (hw : w.opened = some d) :
    Program.Keeps stackTerms (hidLibusb host (.hidClose (some d)) t) v
      (fun x v' => Backed ⟨none, w.lists⟩ x.2 v') := by
  obtain ⟨dev, hdev, handle, transfer, usbDev, sent, hhandle, htransfer, hbooks⟩ := h.device hw
  change Program.Keeps stackTerms (Program.expect (t.devices.lookup d) >>= fun dev =>
    hidClose dev >>= fun _ => pure ((), _)) v _
  rw [hdev, Program.expect_some, Program.done_bind]
  exact (hidClose_keeps hhandle htransfer hbooks).bind (fun _ _ hv' => ⟨sent, hv'⟩)

theorem hidEnumerate_carries (vendorId productId : UInt16) (h : Backed w t v) :
    Program.Keeps stackTerms (hidLibusb host (.hidEnumerate vendorId productId) t) v
      (fun x v' => Backed ⟨w.opened, ⟨x.1, none⟩ :: w.lists⟩ x.2 v') :=
  (hidEnumerate_keeps (fun _ _ => .inl trivial) host vendorId productId t.usbContext).bind
    (fun _ _ hr => h.congr rfl rfl hr.1)

theorem hidFreeEnumeration_keeps (infos : List DeviceInfo) :
    Program.Keeps stackTerms (hidFreeEnumeration infos) v (fun _ v' => v' = v) := by
  induction infos with
  | nil => exact rfl
  | cons d next ih =>
    refine (freeIfAny_keeps _ v).bind (fun _ u hu => ?_)
    subst hu
    refine (freeIfAny_keeps _ u).bind (fun _ u' hu => ?_)
    subst hu
    refine (freeIfAny_keeps _ u').bind (fun _ u hu => ?_)
    subst hu
    refine (freeIfAny_keeps _ u).bind (fun _ u' hu => ?_)
    subst hu
    exact fun _ _ => ⟨_, rfl, ih⟩

theorem hidFreeEnumeration_carries (devs : Model.DeviceList) (h : Backed w t v) :
    Program.Keeps stackTerms (hidLibusb host (.hidFreeEnumeration devs) t) v
      (fun x v' => Backed ⟨w.opened, w.lists.tail⟩ x.2 v') := by
  refine Program.Keeps.bind (P := fun _ v' => v' = v)
    (.expect (fun _ _ => rfl) (fun _ => trivial)) ?_
  rintro infos _ rfl
  refine (hidFreeEnumeration_keeps infos).bind (fun _ v' hv' => ?_)
  subst hv'
  exact h.congr rfl rfl rfl

end Calls

/-- A call that neither opens nor closes leaves the handle as it is. -/
theorem watch_opened {e : Model.Happening} {w w' : Ledger} (h : Ledger.watch w e = some w')
    (ho : opened [e] = []) (hc : closed [e] = []) : w'.opened = w.opened := by
  have hhandles := (watch_accounts h).handles
  rw [ho, hc, List.append_nil, List.nil_append] at hhandles
  have hhead := congrArg List.head? hhandles
  rwa [Option.head?_toList, Option.head?_toList, eq_comm] at hhead

/-- The rules for handles and lists above are the rules of libusb below. -/
theorem hidLibusb_carries (host : Endian) :
    (hidLibusb host).Carries Ledger.watch stackTerms Backed := by
  intro c t w v h hall
  cases c with
  | hidOpenPath path =>
    obtain ⟨w', hw'⟩ := hall none
    refine (hidOpenPath_carries path h (Ledger.assert_eq_some.mp hw').1).mono
      (fun x v' hx w' hw' => ?_)
    obtain ⟨-, rfl⟩ := Ledger.assert_eq_some.mp hw'
    exact hx
  | hidWrite dev data =>
    obtain ⟨w', hw'⟩ := hall (0 : Int)
    refine (hidWrite_carries data h (Ledger.assert_eq_some.mp hw').1).mono
      (fun x v' hx w' hw' => ?_)
    obtain ⟨-, rfl⟩ := Ledger.assert_eq_some.mp hw'
    exact hx
  | hidRead dev length =>
    obtain ⟨w', hw'⟩ := hall ⟨0, []⟩
    refine (hidRead_carries length h (Ledger.assert_eq_some.mp hw').1).mono
      (fun x v' hx w' hw' => ?_)
    obtain ⟨-, rfl⟩ := Ledger.assert_eq_some.mp hw'
    exact hx
  | hidClose dev =>
    cases dev with
    | none =>
      intro w' hw'
      obtain rfl := Option.some.inj hw'
      exact h
    | some dev =>
      obtain ⟨w', hw'⟩ := hall ()
      refine (hidClose_carries h (Ledger.assert_eq_some.mp hw').1).mono (fun x v' hx w' hw' => ?_)
      obtain ⟨-, rfl⟩ := Ledger.assert_eq_some.mp hw'
      exact hx
  | hidEnumerate vendorId productId =>
    refine (hidEnumerate_carries vendorId productId h).mono (fun x v' hx w' hw' => ?_)
    obtain rfl := Option.some.inj hw'
    exact hx
  | hidFreeEnumeration devs =>
    refine (hidFreeEnumeration_carries devs h).mono (fun x v' hx w' hw' => ?_)
    obtain ⟨-, rfl⟩ := Ledger.assert_eq_some.mp hw'
    exact hx
  | _ =>
    exact fun r _ => ⟨v, rfl, fun w' hw' => h.congr (watch_opened hw' rfl rfl) rfl rfl⟩

/-- The whole stack, from the clients of the library down to libusb. Whatever fails
on the way, as long as no two devices of a walk share their place on the bus and no
interface has two altsettings of the HID class: every call of a client's run keeps
to the rules of libusb, and at the end every list, descriptor, claim, thread, transfer
and handle has been given back. -/
theorem stack_gives_back {γ σ : Type} (host : Endian) (c : Model.Client γ) (h : UsbHost σ)
    (hh : ∀ call s, Distinct ⟨call, (h call s).1⟩) (s : σ) :
    let p := (hidLibusb host).implement (c.code host) Stack.start
    ∃ view : View, (Program.events h p s).foldlM View.watch .empty = some view ∧
      ∀ r t, Program.run h p s = some (r, t) → ∃ sent, view.books = .idle sent := by
  intro p
  have hobeys := Balanced.client host c .empty rfl
  have hkeeps := (hidLibusb_carries host).keeps trivial hobeys
    (show Backed .empty Stack.start .empty from ⟨[], rfl⟩)
  obtain ⟨view, hfold, hend, -⟩ := hkeeps.sound (h := h) hh s
  refine ⟨view, hfold, fun r t hrun => ?_⟩
  obtain ⟨w, rfl, hbacked⟩ := hend r t hrun
  exact hbacked

/-- A client that opens the first dongle and asks for its range. -/
theorem stack_gives_back_range :
    let c : Model.Client Unit := .api (.fcdOpen none) (fun dev =>
      .api (.fcdBlGetAddressRange dev) (fun _ => .api (.fcdClose dev) (fun _ => .done 0 ())))
    let p := (hidLibusb .little).implement (c.code .little) Stack.start
    Program.run (Bus.host (Boot.serve id)) p ⟨oneBlock, []⟩ =
        some (((0, ()), ⟨true, [], []⟩), ⟨oneBlock, []⟩) ∧
      ∃ view : View,
        (Program.events (Bus.host (Boot.serve id)) p ⟨oneBlock, []⟩).foldlM View.watch .empty =
          some view ∧
        ∃ sent, view.books = .idle sent := by
  intro c p
  have hrun : Program.run (Bus.host (Boot.serve id)) p ⟨oneBlock, []⟩ =
      some (((0, ()), ⟨true, [], []⟩), ⟨oneBlock, []⟩) := rfl
  obtain ⟨view, hfold, hend⟩ := stack_gives_back .little c (Bus.host (Boot.serve id))
    (Bus.distinct _) ⟨oneBlock, []⟩
  exact ⟨hrun, view, hfold, hend _ _ hrun⟩

end Libfcd.Proofs
