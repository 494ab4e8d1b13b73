import Libfcd.Devices.Bus
import Libfcd.Devices.Fleet

namespace Libfcd.Devices
open Interaction Memory Hidapi Proofs

/-- A bus with a dongle behind the path of each interface: the device that was
opened last, the path of the interface that was claimed last, and the reports that
are queued of it. -/
structure Wires (D : Type) where
  dongle : String → D
  device : Option UsbDevice
  path : String
  queued : List Bytes

/-- The input report in which a dongle answers. -/
def inputReport (report : Bytes) (response : Option Bytes) : Bytes :=
  (match response with
    | some data => report.getD 1 0 :: 1 :: data
    | none => [report.getD 1 0, 0]).takeD 64 0

/-- The path of an interface that is claimed. -/
def claimedPath (device : Option UsbDevice) (path : String) (interface : UInt8) : String :=
  (device.map (fun dev => pathOf dev.busNumber dev.deviceAddress interface)).getD path

namespace Wires

variable {D : Type}

/-- The data are served as a report without a report ID. -/
def deliver (serve : Serve D) (data : Bytes) (w : Wires D) : Wires D :=
  { w with dongle := Function.update w.dongle w.path (serve (0 :: data) (w.dongle w.path)).2 }

def answer (serve : Serve D) (data : Bytes) (w : Wires D) : Bytes :=
  inputReport (0 :: data) (serve (0 :: data) (w.dongle w.path)).1

/-- What becomes of a transfer: it is lost, or served, or served and answered. -/
inductive Transfer (serve : Serve D) (data : Bytes) (w : Wires D) : Wires D → Prop where
  | lost : Transfer serve data w w
  | served : Transfer serve data w (w.deliver serve data)
  | answered : Transfer serve data w
      { w.deliver serve data with queued := w.queued ++ [w.answer serve data] }

theorem Transfer.path {serve : Serve D} {data : Bytes} {w w' : Wires D}
    (h : Transfer serve data w w') : w'.path = w.path := by
  cases h <;> rfl

theorem Transfer.dongle {serve : Serve D} {data : Bytes} {w w' : Wires D}
    (h : Transfer serve data w w') : w'.dongle = w.dongle ∨ w'.dongle =
      Function.update w.dongle w.path (serve (0 :: data) (w.dongle w.path)).2 := by
  cases h with
  | lost => exact .inl rfl
  | served => exact .inr rfl
  | answered => exact .inr rfl

/-- What is queued after a transfer, where nothing was before, is its answer. -/
theorem Transfer.answer_of_queued {serve : Serve D} {data report : Bytes} {rest : List Bytes}
    {w w' : Wires D} (h : Transfer serve data w w') (hempty : w.queued = [])
    (hqueued : w'.queued = report :: rest) : report = w.answer serve data ∧
      w'.dongle = Function.update w.dongle w.path (serve (0 :: data) (w.dongle w.path)).2 := by
  cases h with
  | lost =>
    rw [hempty] at hqueued
    cases hqueued
  | served =>
    rw [deliver, hempty] at hqueued
    cases hqueued
  | answered =>
    rw [hempty] at hqueued
    exact ⟨(List.cons.inj hqueued).1.symm, rfl⟩

/-- What a read gives: nothing, or the oldest report that is queued. -/
inductive Take (length : Nat) (w : Wires D) : Model.Received → Wires D → Prop where
  | failed {r : Model.Received} (h : r.count < 0) : Take length w r w
  | taken {report : Bytes} {rest : List Bytes} (h : w.queued = report :: rest) :
    Take length w ⟨(min length report.length : Nat), report.take length⟩ { w with queued := rest }

theorem Take.of_received {length : Nat} {w w' : Wires D} {r : Model.Received}
    (h : Take length w r w') (hr : 0 ≤ r.count) : (∃ report rest, w.queued = report :: rest ∧
      r = ⟨(min length report.length : Nat), report.take length⟩) ∧ w'.dongle = w.dongle := by
  cases h with
  | failed hfailed => omega
  | taken hqueued => exact ⟨⟨_, _, hqueued, rfl⟩, rfl⟩

/-- The interface of the device that was opened is claimed. -/
def claim (interface : UInt8) (w : Wires D) : Wires D :=
  { w with path := claimedPath w.device w.path interface }

/-- What an event may change. A device that was opened has no queue before its
thread is started. -/
def Moves (serve : Serve D) (w : Wires D) (e : UsbHappening) (w' : Wires D) : Prop :=
  match e with
  | ⟨.libusbOpen dev, handle⟩ =>
    w' = if Option.isSome handle then { w with device := some dev } else w
  | ⟨.claimInterface _ interface, res⟩ =>
    w' = if View.failed res then w else w.claim interface
  | ⟨.startReadThread .., _⟩ => w' = { w with queued := [] }
  | ⟨.controlTransfer _ _ _ _ _ data _, _⟩ | ⟨.interruptTransfer _ _ data _, _⟩ =>
    Transfer serve data w w'
  | ⟨.takeReport _ length _, r⟩ => Take length w r w'
  | _ => w' = w

end Wires

/-- A libusb that has such a bus behind it. -/
def Wired {D σ : Type} (serve : Serve D) (h : UsbHost σ) (view : σ → Wires D) : Prop :=
  ∀ c s, (view s).Moves serve ⟨c, (h c s).1⟩ (view (h c s).2)

/-- A concrete bus with any number of dongles, and one file. Each transfer takes the
next entry of the fault list: `none` for no fault, otherwise whether the dongle
served it all the same. -/
structure Ports (D : Type) where
  wires : Wires D
  attached : List UsbDevice
  faults : List (Option Bool)
  file : Bytes

namespace Ports

variable {D : Type}

/-- Whether a transfer goes well, and what becomes of it. -/
def transfer (serve : Serve D) (data : Bytes) (s : Ports D) : Bool × Ports D :=
  let s' := { s with faults := s.faults.tail }
  let w := s.wires.deliver serve data
  match s.faults.headD none with
  | none =>
    (true, { s' with wires := { w with queued := s.wires.queued ++ [s.wires.answer serve data] } })
  | some true => (false, { s' with wires := w })
  | some false => (false, s')

/-- Calls that do not concern the bus. -/
def elsewhere (file : Bytes) : (c : Model.Call) → c.Answer
  | .fopen _ => some 0
  | .fseek .. => (0 : Int)
  | .ftell _ => (file.length : Int)
  | .fread .. => file
  | c => Bus.elsewhere c

def host (serve : Serve D) : UsbHost (Ports D) := fun c s =>
  match c with
  | .libusbInit => ((0 : Int), s)
  | .getDeviceList => ((some ⟨0, s.attached⟩ : Option UsbList), s)
  | .getDeviceDescriptor _ => (Bus.descriptor, s)
  | .getActiveConfigDescriptor _ => ((some Bus.configuration : Option ConfigDescriptor), s)
  | .getConfigDescriptor .. => ((some Bus.configuration : Option ConfigDescriptor), s)
  | .libusbOpen dev =>
    ((some 0 : Option UsbHandle), { s with wires := { s.wires with device := some dev } })
  | .getStringDescriptor .. => ((none : Option Bytes), s)
  | .claimInterface _ interface => ((0 : Int), { s with wires := s.wires.claim interface })
  | .kernelDriverActive .. | .detachKernelDriver .. | .releaseInterface .. | .submitTransfer .. =>
    ((0 : Int), s)
  | .controlTransfer _ _ _ _ _ data _ =>
    let (ok, s') := s.transfer serve data
    ((if ok then data.length else -1 : Int), s')
  | .interruptTransfer _ _ data _ =>
    let (ok, s') := s.transfer serve data
    (((if ok then 0 else -1, data.length) : Int × Int), s')
  | .startReadThread .. => ((), { s with wires := { s.wires with queued := [] } })
  | .takeReport _ length _ =>
    match s.wires.queued with
    | [] => ((⟨-1, []⟩ : Model.Received), s)
    | report :: rest =>
      ((⟨(min length report.length : Nat), report.take length⟩ : Model.Received),
        { s with wires := { s.wires with queued := rest } })
  | .getUsbCodeForCurrentLocale => ((0x0409 : UInt16), s)
  | .malloc _ | .allocTransfer | .iconvOpen | .calloc _ | .wcsdup _ => ((some 0 : Option Nat), s)
  | .plain c => (elsewhere s.file c, s)
  | .freeDeviceList _ | .freeConfigDescriptor _ | .libusbClose _ | .stopReadThread _
  | .freeTransfer _ | .iconvClose _ => ((), s)

theorem transfer_wires (serve : Serve D) (data : Bytes) (s : Ports D) :
    Wires.Transfer serve data s.wires (s.transfer serve data).2.wires := by
  unfold transfer
  rcases s.faults.headD none with _ | _ | _
  · exact .answered
  · exact .lost
  · exact .served

theorem wired (serve : Serve D) : Wired serve (host serve) wires := by
  intro c s
  cases c with
  | controlTransfer handle requestType request value index data timeout =>
    exact transfer_wires serve data s
  | interruptTransfer handle endpoint data timeout => exact transfer_wires serve data s
  | takeReport handle length milliseconds =>
    change Wires.Take length s.wires (host serve (.takeReport handle length milliseconds) s).1
      (host serve (.takeReport handle length milliseconds) s).2.wires
    simp only [host]
    split
    · exact .failed (show (-1 : Int) < 0 by decide)
    · rename_i report rest hqueued
      exact .taken hqueued
  | claimInterface handle interface => rfl
  | _ => rfl

end Ports

end Libfcd.Devices
