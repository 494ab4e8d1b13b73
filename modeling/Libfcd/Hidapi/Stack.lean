import Libfcd.Hidapi.Devices
import Libfcd.Interaction.Layer

namespace Libfcd.Hidapi
open Interaction Memory Model

/-- What `hid-libusb.c` keeps from call to call: its static variable, and behind
the pointers that it gave out the devices and the lists. -/
structure Stack where
  usbContext : Bool
  devices : List (Handle × HidDevice)
  lists : List (Nat × List DeviceInfo)
  deriving DecidableEq, Repr

/-- Before the first call. -/
def Stack.start : Stack := ⟨false, [], []⟩

/-- A list as it is seen through its pointer, which is the one to its first record. -/
def deviceList (infos : List DeviceInfo) : DeviceList where
  id := (infos.head?.map DeviceInfo.addr).getD 0
  paths := infos.map (fun info => info.path.map DevPath.text)

/-- A call that is none of hidapi's. -/
def pass (c : Call) (t : Stack) : Usb (c.Answer × Stack) :=
  .call (.plain c) (fun r => .done (r, t))

/-- The calls of the library to hidapi by way of `hid-libusb.c`. The others pass. -/
def hidLibusb (host : Endian) : Layer Call Call.Answer UsbCall UsbCall.Answer Stack
  | .hidOpenPath path, t => do
    let (dev, usbContext) ← hidOpenPath path t.usbContext
    match dev with
    | none => pure (none, { t with usbContext })
    | some dev =>
      pure (some dev.addr, { t with usbContext, devices := (dev.addr, dev) :: t.devices })
  | .hidWrite dev data, t => do
    let dev ← .expect (t.devices.lookup dev)
    let res ← hidWrite dev data
    pure (res, t)
  | .hidRead dev length, t => do
    let dev ← .expect (t.devices.lookup dev)
    let received ← hidRead dev length
    pure (received, t)
  | .hidClose none, t => pure ((), t)
  | .hidClose (some dev), t => do
    let hidDev ← .expect (t.devices.lookup dev)
    hidClose hidDev
    pure ((), { t with devices := t.devices.eraseP (·.1 = dev) })
  | .hidEnumerate vendorId productId, t => do
    let (infos, usbContext) ← hidEnumerate host vendorId productId t.usbContext
    let devs := deviceList infos
    pure (devs, { t with usbContext, lists := (devs.id, infos) :: t.lists })
  | .hidFreeEnumeration devs, t => do
    let infos ← .expect (t.lists.lookup devs.id)
    hidFreeEnumeration infos
    pure ((), { t with lists := t.lists.eraseP (·.1 = devs.id) })
  | c, t => pass c t

end Libfcd.Hidapi
