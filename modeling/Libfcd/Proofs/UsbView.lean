import Libfcd.Hidapi.Devices
import Libfcd.Interaction.Terms
import Libfcd.Proofs.Numerals

namespace Libfcd.Proofs
open Interaction Memory Hidapi

/-- A `libusb_device_handle` that is open, the interface claimed with it, whether a
thread reads from it, and that thread's `libusb_transfer`. -/
structure OpenHandle where
  handle : UsbHandle
  dev : UsbDevice
  claimed : Option UInt8
  reading : Bool
  transfer : Option Nat
  deriving DecidableEq, Repr

/-- The books over libusb: what was taken and not given back, newest first, and
the data that were sent to devices, in order. -/
structure Books where
  lists : List UsbList
  configs : List ConfigDescriptor
  handles : List OpenHandle
  sent : List Bytes
  deriving DecidableEq, Repr

/-- What libusb said of a device of the list that was asked for last: its descriptor,
and what it answered for the active and the first configuration, if it was asked. -/
structure Seen where
  dev : UsbDevice
  desc : DeviceDescriptor
  active : Option (Option (List (List InterfaceDescriptor)))
  first : Option (Option (List (List InterfaceDescriptor)))
  deriving DecidableEq, Repr

/-- An observer of `hid-libusb.c`: its books, the last result of `libusb_init` and the
last list of devices, if they were asked for, what it was told of the devices on that
list, and whether it was refused one of them or an interface since. -/
structure View where
  books : Books
  setUp : Option Int
  asked : Option (Option UsbList)
  seen : List Seen
  refused : Bool
  deriving DecidableEq, Repr

namespace Books

/-- Everything was given back. -/
def idle (sent : List Bytes) : Books := ⟨[], [], [], sent⟩

/-- The device belongs to the newest list. -/
def knows (u : Books) (dev : UsbDevice) : Bool := u.lists.head?.any (dev ∈ ·.devs)

/-- The newest handle is this one, and it has this claim and nothing more. -/
def newest (u : Books) (handle : UsbHandle) (claimed : Option UInt8) : Bool :=
  u.handles.head?.any (fun o => o.handle = handle ∧ o.claimed = claimed ∧ o.reading = false ∧
    o.transfer = none)

/-- The newest handle is in use: its interface is claimed, its thread runs and has a
transfer. -/
def inUse (u : Books) (handle : UsbHandle) : Bool :=
  u.handles.head?.any (fun o => o.handle = handle ∧ o.claimed.isSome ∧ o.reading ∧
    o.transfer.isSome)

/-- A change to the newest handle. -/
def amend (u : Books) (f : OpenHandle → OpenHandle) : Books :=
  match u.handles with
  | [] => u
  | o :: rest => { u with handles := f o :: rest }

@[simp] theorem amend_sent (u : Books) (f : OpenHandle → OpenHandle) :
    (u.amend f).sent = u.sent := by
  unfold amend
  split <;> rfl

end Books

namespace View

def empty : View := ⟨.idle [], none, none, [], false⟩

/-- The same under a condition, and nothing without it. -/
def require (c : Prop) [Decidable c] (w : View) : Option View := if c then some w else none

theorem require_pos {c : Prop} [Decidable c] (hc : c) (w : View) : require c w = some w := if_pos hc

theorem require_eq_some {c : Prop} [Decidable c] {w w' : View} :
    require c w = some w' ↔ c ∧ w = w' := by
  simp [require]

/-- A result of libusb that is an error code. -/
def failed (res : Int) : Bool := res < 0

/-- The configuration found for the device that was described last. -/
def configured (w : View) (f : Seen → Seen) : View :=
  match w.seen.getLast? with
  | none => w
  | some s => { w with seen := w.seen.dropLast ++ [f s] }

@[simp] theorem configured_books (w : View) (f : Seen → Seen) :
    (w.configured f).books = w.books := by
  unfold configured
  split <;> rfl

@[simp] theorem configured_append (books : Books) (setUp : Option Int)
    (asked : Option (Option UsbList)) (seen : List Seen) (s : Seen) (refused : Bool)
    (f : Seen → Seen) :
    (View.mk books setUp asked (seen ++ [s]) refused).configured f =
      ⟨books, setUp, asked, seen ++ [f s], refused⟩ := by
  simp [configured]

/-- The rules of libusb. Devices are used while a list with them is there;
descriptors, lists and handles are given back newest first. An interface is claimed
before anything is read or sent, and released again; a transfer is made and filled in
by the thread that reads and freed when that has ended; a handle is closed when it has
no claim, no thread and no transfer left. -/
def watch : Watch UsbCall UsbCall.Answer View := fun w e =>
  match e with
  | ⟨.libusbInit, res⟩ => some { w with setUp := some res }
  | ⟨.getDeviceList, devs⟩ =>
    some ⟨{ w.books with lists := devs.toList ++ w.books.lists }, w.setUp, some devs, [], false⟩
  | ⟨.freeDeviceList devs, _⟩ =>
    require (w.books.lists.head? = some devs)
      { w with books := { w.books with lists := w.books.lists.tail } }
  | ⟨.getDeviceDescriptor dev, desc⟩ =>
    require (w.books.knows dev) { w with seen := w.seen ++ [⟨dev, desc, none, none⟩] }
  | ⟨.getActiveConfigDescriptor dev, conf⟩ =>
    require (w.books.knows dev) ({ w with books := { w.books with
      configs := conf.toList ++ w.books.configs } }.configured
        (fun s => { s with active := some (conf.map ConfigDescriptor.interface) }))
  | ⟨.getConfigDescriptor dev _, conf⟩ =>
    require (w.books.knows dev) ({ w with books := { w.books with
      configs := conf.toList ++ w.books.configs } }.configured
        (fun s => { s with first := some (conf.map ConfigDescriptor.interface) }))
  | ⟨.freeConfigDescriptor conf, _⟩ =>
    require (w.books.configs.head? = some conf)
      { w with books := { w.books with configs := w.books.configs.tail } }
  | ⟨.libusbOpen dev, none⟩ => require (w.books.knows dev) { w with refused := true }
  | ⟨.libusbOpen dev, some handle⟩ =>
    require (w.books.knows dev) { w with books := { w.books with
      handles := ⟨handle, dev, none, false, none⟩ :: w.books.handles } }
  | ⟨.libusbClose handle, _⟩ =>
    require (w.books.newest handle none)
      { w with books := { w.books with handles := w.books.handles.tail } }
  | ⟨.getStringDescriptor handle .., _⟩ => require (w.books.newest handle none) w
  | ⟨.kernelDriverActive handle _, _⟩ => require (w.books.newest handle none) w
  | ⟨.detachKernelDriver handle _, res⟩ =>
    require (w.books.newest handle none) { w with refused := w.refused || failed res }
  | ⟨.claimInterface handle interface, res⟩ =>
    require (w.books.newest handle none)
      (if failed res then { w with refused := true }
      else { w with books := w.books.amend (fun o => { o with claimed := some interface }) })
  | ⟨.startReadThread handle, _⟩ =>
    require (w.books.handles.head?.any (fun o => o.handle = handle ∧ o.claimed.isSome ∧
        o.reading = false ∧ o.transfer = none))
      { w with books := w.books.amend (fun o => { o with reading := true }) }
  | ⟨.allocTransfer, transfer⟩ =>
    require (w.books.handles.head?.any (fun o => o.reading ∧ o.transfer = none))
      { w with books := w.books.amend (fun o => { o with transfer }) }
  | ⟨.submitTransfer handle _ transfer _, _⟩ =>
    require (w.books.handles.head?.any (fun o => o.handle = handle ∧ o.reading ∧
        o.transfer = some transfer.addr)) w
  | ⟨.stopReadThread handle, _⟩ =>
    require (w.books.inUse handle)
      { w with books := w.books.amend (fun o => { o with reading := false }) }
  | ⟨.freeTransfer transfer, _⟩ =>
    require (w.books.handles.head?.any (fun o => o.reading = false ∧ o.transfer = some transfer))
      { w with books := w.books.amend (fun o => { o with transfer := none }) }
  | ⟨.releaseInterface handle interface, _⟩ =>
    require (w.books.newest handle (some interface))
      { w with books := w.books.amend (fun o => { o with claimed := none }) }
  | ⟨.controlTransfer handle _ _ _ _ data _, _⟩ =>
    require (w.books.inUse handle)
      { w with books := { w.books with sent := w.books.sent ++ [data] } }
  | ⟨.interruptTransfer handle _ data _, _⟩ =>
    require (w.books.inUse handle)
      { w with books := { w.books with sent := w.books.sent ++ [data] } }
  | ⟨.takeReport handle .., _⟩ => require (w.books.inUse handle) w
  | ⟨.malloc _, _⟩ | ⟨.getUsbCodeForCurrentLocale, _⟩ | ⟨.iconvOpen, _⟩ | ⟨.iconvClose _, _⟩
  | ⟨.calloc _, _⟩ | ⟨.wcsdup _, _⟩ | ⟨.plain _, _⟩ => some w

end View

/-- What `hid-libusb.c` takes for granted without a test: memory for its records,
paths and transfers, and string descriptors that have their header and fit the
buffer. -/
def Provided : UsbHappening → Prop
  | ⟨.calloc _, block⟩ => block ≠ none
  | ⟨.allocTransfer, transfer⟩ => transfer ≠ none
  | ⟨.plain (.strdup ..), block⟩ => block ≠ none
  | ⟨.getStringDescriptor _ _ _ length, buf⟩ =>
    ∀ bytes : Bytes, buf = some bytes → 2 ≤ bytes.length ∧ bytes.length ≤ length
  | _ => True

/-- What `hid_open_path` takes for granted besides: a list of devices. -/
def Enumerable : UsbHappening → Prop
  | ⟨.getDeviceList, devs⟩ => devs ≠ none
  | _ => True

/-- An altsetting of the HID class. -/
def isHid (intfDesc : InterfaceDescriptor) : Bool := intfDesc.bInterfaceClass = libusbClassHid

/-- Paths tell devices apart: no two devices are at one address of one bus, and an
interface has no second altsetting of the HID class. -/
def Distinct : UsbHappening → Prop
  | ⟨.getDeviceList, devs⟩ => ∀ l : UsbList, devs = some l →
    (l.devs.map (fun d => (d.busNumber, d.deviceAddress))).Nodup
  | ⟨.getActiveConfigDescriptor _, conf⟩ => ∀ c : ConfigDescriptor, conf = some c →
    ((c.interface.flatten.filter isHid).map InterfaceDescriptor.bInterfaceNumber).Nodup
  | _ => True

/-- What libusb has to give for `hid_open_path`: memory, sound strings, a list of
devices, and devices that their paths tell apart. -/
def Openable (e : UsbHappening) : Prop := Provided e ∧ Distinct e ∧ Enumerable e

/-- Judged by the rules of libusb, with answers as `grants` promises them. -/
def usbTerms (grants : UsbHappening → Prop) (lenient : Prop) :
    Terms UsbCall UsbCall.Answer View := ⟨grants, View.watch, lenient⟩

theorem pathOf_injective {bus addr interface bus' addr' interface' : UInt8}
    (h : pathOf bus addr interface = pathOf bus' addr' interface') :
    bus = bus' ∧ addr = addr' ∧ interface = interface' := by
  have len4 : ∀ x : UInt8, (Model.hex 4 x.toNat).toList.length = 4 := fun x =>
    length_hex (by decide) (Nat.lt_trans x.toNat_lt (by decide))
  have same : ∀ {width : Nat} {x y : UInt8},
      (Model.hex width x.toNat).toList = (Model.hex width y.toNat).toList → x = y := by
    intro width x y hxy
    exact UInt8.toNat_inj.mp (hex_injective (String.toList_inj.mp hxy))
  have htext := congrArg String.toList h
  simp only [pathOf, String.toList_append, List.append_assoc] at htext
  obtain ⟨hbus, htext⟩ := List.append_inj htext (by rw [len4, len4])
  obtain ⟨-, htext⟩ := List.append_inj htext rfl
  obtain ⟨haddr, htext⟩ := List.append_inj htext (by rw [len4, len4])
  obtain ⟨-, hinterface⟩ := List.append_inj htext rfl
  exact ⟨same hbus, same haddr, same hinterface⟩

end Libfcd.Proofs
