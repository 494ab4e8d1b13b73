import Libfcd.Devices.Bootloader
import Libfcd.Proofs.UsbView

namespace Libfcd.Devices
open Interaction Memory Hidapi Proofs

/-- A bus with one dongle on it, and the reports that the reading thread has queued. -/
structure Bus (D : Type) where
  device : D
  queued : List Bytes

namespace Bus

variable {D : Type}

def dongle : UsbDevice := ⟨7, 1, 4⟩

def descriptor : DeviceDescriptor := ⟨0x04d8, 0xfb56, 0x0100, 0, 0, 0⟩

/-- An audio interface, and the HID interface with an endpoint in each direction. -/
def configuration : ConfigDescriptor where
  id := 0
  interface := [[⟨0, 1, []⟩], [⟨2, 3, [⟨0x81, 3, 64⟩, ⟨0x01, 3, 64⟩]⟩]]

/-- The dongle serves a report and its response is queued. -/
def act (serve : Serve D) (data : Bytes) (s : Bus D) : Bus D :=
  let (response, device) := serve (0 :: data) s.device
  let report := match response with
    | some response => data.getD 0 0 :: 1 :: response
    | none => [data.getD 0 0, 0]
  { device, queued := s.queued ++ [report.takeD 64 0] }

/-- Calls that do not concern the bus; there is memory, and there are no files. -/
def elsewhere : (c : Model.Call) → c.Answer
  | .malloc _ | .strdup .. => some 0
  | .hidOpenPath _ => none
  | .hidWrite .. => (-1 : Int)
  | .hidRead .. => ⟨-1, []⟩
  | .hidEnumerate .. => ⟨0, []⟩
  | .fopen _ => none
  | .fseek .. | .ftell _ => (-1 : Int)
  | .fread .. => []
  | .free _ | .usleep _ | .hidClose _ | .deviceInfo _ | .hidFreeEnumeration _
  | .print .. | .perror _ | .fclose _ | .mark _ => ()

def host (serve : Serve D) : UsbHost (Bus D) := fun c s =>
  match c with
  | .libusbInit => ((0 : Int), s)
  | .getDeviceList => ((some ⟨0, [dongle]⟩ : Option UsbList), s)
  | .getDeviceDescriptor _ => (descriptor, s)
  | .getActiveConfigDescriptor _ => ((some configuration : Option ConfigDescriptor), s)
  | .getConfigDescriptor .. => ((some configuration : Option ConfigDescriptor), s)
  | .libusbOpen _ => ((some 0 : Option UsbHandle), s)
  | .getStringDescriptor .. => ((none : Option Bytes), s)
  | .kernelDriverActive .. => ((1 : Int), s)
  | .detachKernelDriver .. | .claimInterface .. | .releaseInterface .. | .submitTransfer .. =>
    ((0 : Int), s)
  | .controlTransfer _ _ _ _ _ data _ => ((data.length : Int), s.act serve data)
  | .interruptTransfer _ _ data _ => (((0, data.length) : Int × Int), s.act serve data)
  | .startReadThread .. => ((), { s with queued := [] })
  | .takeReport _ length _ =>
    match s.queued with
    | [] => ((⟨-1, []⟩ : Model.Received), s)
    | report :: rest =>
      ((⟨min length report.length, report.take length⟩ : Model.Received),
        { s with queued := rest })
  | .getUsbCodeForCurrentLocale => ((0x0409 : UInt16), s)
  | .malloc _ | .allocTransfer | .iconvOpen | .calloc _ | .wcsdup _ => ((some 0 : Option Nat), s)
  | .plain c => (elsewhere c, s)
  | .freeDeviceList _ | .freeConfigDescriptor _ | .libusbClose _ | .stopReadThread _
  | .freeTransfer _ | .iconvClose _ => ((), s)

theorem provided (serve : Serve D) (c : UsbCall) (s : Bus D) :
    Provided ⟨c, (host serve c s).1⟩ := by
  cases c with
  | calloc record => exact Option.some_ne_none _
  | allocTransfer => exact Option.some_ne_none _
  | getStringDescriptor handle index lang length => exact fun bytes h => nomatch h
  | plain c =>
    cases c with
    | strdup s entry => exact Option.some_ne_none _
    | _ => trivial
  | _ => trivial

theorem enumerable (serve : Serve D) (c : UsbCall) (s : Bus D) :
    Enumerable ⟨c, (host serve c s).1⟩ := by
  cases c with
  | getDeviceList => exact Option.some_ne_none _
  | _ => trivial

theorem distinct (serve : Serve D) (c : UsbCall) (s : Bus D) :
    Distinct ⟨c, (host serve c s).1⟩ := by
  cases c with
  | getDeviceList =>
    intro l hl
    obtain rfl := Option.some.inj hl
    decide
  | getActiveConfigDescriptor dev =>
    intro conf hconf
    obtain rfl := Option.some.inj hconf
    decide
  | _ => trivial

theorem openable (serve : Serve D) (c : UsbCall) (s : Bus D) :
    Openable ⟨c, (host serve c s).1⟩ :=
  ⟨provided serve c s, distinct serve c s, enumerable serve c s⟩

end Bus

end Libfcd.Devices
