import Libfcd.Model.Calls

namespace Libfcd.Hidapi
open Interaction Memory Model

/-- A `libusb_device *` that is not NULL, with its `libusb_get_bus_number` and its
`libusb_get_device_address`. -/
structure UsbDevice where
  ref : Nat
  busNumber : UInt8
  deviceAddress : UInt8
  deriving DecidableEq, Repr

structure DeviceDescriptor where
  idVendor : UInt16
  idProduct : UInt16
  bcdDevice : UInt16
  iManufacturer : UInt8
  iProduct : UInt8
  iSerialNumber : UInt8
  deriving DecidableEq, Repr

structure EndpointDescriptor where
  bEndpointAddress : UInt8
  bmAttributes : UInt8
  wMaxPacketSize : UInt16
  deriving DecidableEq, Repr

/-- One altsetting of an interface; `bNumEndpoints` is the length of its list. -/
structure InterfaceDescriptor where
  bInterfaceNumber : UInt8
  bInterfaceClass : UInt8
  endpoint : List EndpointDescriptor
  deriving DecidableEq, Repr

/-- A configuration that libusb allocated: the altsettings of each interface. -/
structure ConfigDescriptor where
  id : Nat
  interface : List (List InterfaceDescriptor)
  deriving DecidableEq, Repr

/-- An array that `libusb_get_device_list` allocated, up to its NULL. -/
structure UsbList where
  id : Nat
  devs : List UsbDevice
  deriving DecidableEq, Repr

/-- A `libusb_device_handle *` that is not NULL. -/
abbrev UsbHandle := Nat

/-- A `libusb_transfer *` that is not NULL, with its `buffer`. -/
structure Transfer where
  addr : Nat
  buffer : Option Nat
  deriving DecidableEq, Repr

/-- The structures that are made by `calloc`. -/
inductive Zeroed where
  | hidDevice
  | deviceInfo
  deriving DecidableEq, Repr

/-- What `hid-libusb.c` asks of libusb, of its own reading thread and of the C
library. `startReadThread` is `pthread_create`, `stopReadThread` the cancel and the
`pthread_join`, and `takeReport` a `hid_read_timeout` on what that thread has queued.
`submitTransfer` fills the transfer first, and `malloc` is the one for its buffer.
`plain` is any call that does not concern devices. -/
inductive UsbCall where
  | libusbInit
  | getDeviceList
  | freeDeviceList (devs : UsbList)
  | getDeviceDescriptor (dev : UsbDevice)
  | getActiveConfigDescriptor (dev : UsbDevice)
  | getConfigDescriptor (dev : UsbDevice) (index : UInt8)
  | freeConfigDescriptor (conf : ConfigDescriptor)
  | libusbOpen (dev : UsbDevice)
  | libusbClose (handle : UsbHandle)
  | getStringDescriptor (handle : UsbHandle) (index : UInt8) (lang : UInt16) (length : Nat)
  | kernelDriverActive (handle : UsbHandle) (interface : UInt8)
  | detachKernelDriver (handle : UsbHandle) (interface : UInt8)
  | claimInterface (handle : UsbHandle) (interface : UInt8)
  | releaseInterface (handle : UsbHandle) (interface : UInt8)
  | controlTransfer (handle : UsbHandle) (requestType request : UInt8) (value index : UInt16)
    (data : Bytes) (timeout : Nat)
  | interruptTransfer (handle : UsbHandle) (endpoint : UInt8) (data : Bytes) (timeout : Nat)
  | startReadThread (handle : UsbHandle)
  | malloc (size : UInt16)
  | allocTransfer
  | submitTransfer (handle : UsbHandle) (endpoint : UInt8) (transfer : Transfer) (length : UInt16)
  | stopReadThread (handle : UsbHandle)
  | freeTransfer (transfer : Nat)
  | takeReport (handle : UsbHandle) (length : Nat) (milliseconds : Int)
  | getUsbCodeForCurrentLocale
  | iconvOpen
  | iconvClose (ic : Nat)
  | calloc (record : Zeroed)
  | wcsdup (text : List UInt32)
  | plain (c : Call)
  deriving DecidableEq, Repr

/-- The type of what each call returns: `none` for NULL, or for an error code
where there is nothing else to tell. What is in a descriptor afterwards counts,
since the codes of `libusb_get_device_descriptor` are not looked at. -/
def UsbCall.Answer : UsbCall → Type
  | .libusbInit => Int
  | .getDeviceList => Option UsbList
  | .getDeviceDescriptor _ => DeviceDescriptor
  | .getActiveConfigDescriptor _ | .getConfigDescriptor .. => Option ConfigDescriptor
  | .libusbOpen _ => Option UsbHandle
  | .getStringDescriptor .. => Option Bytes
  | .kernelDriverActive .. | .detachKernelDriver .. | .claimInterface ..
  | .releaseInterface .. | .controlTransfer .. | .submitTransfer .. => Int
  | .interruptTransfer .. => Int × Int
  | .takeReport .. => Received
  | .getUsbCodeForCurrentLocale => UInt16
  | .malloc _ | .allocTransfer | .iconvOpen | .calloc _ | .wcsdup _ => Option Nat
  | .plain c => c.Answer
  | .freeDeviceList _ | .freeConfigDescriptor _ | .libusbClose _ | .startReadThread _
  | .stopReadThread _ | .freeTransfer _ | .iconvClose _ => Unit

/-- Code of `hid-libusb.c`, in the calls it makes. -/
abbrev Usb := Program UsbCall UsbCall.Answer

/-- Surroundings of `hid-libusb.c`. -/
abbrev UsbHost (σ : Type) := Handler UsbCall UsbCall.Answer σ

abbrev UsbHappening := Event UsbCall UsbCall.Answer

def libusbInit : Usb Int := Program.perform UsbCall.libusbInit
def getDeviceList : Usb (Option UsbList) := Program.perform UsbCall.getDeviceList
def freeDeviceList (devs : UsbList) : Usb Unit := Program.perform (UsbCall.freeDeviceList devs)
def getDeviceDescriptor (dev : UsbDevice) : Usb DeviceDescriptor :=
  Program.perform (UsbCall.getDeviceDescriptor dev)
def getActiveConfigDescriptor (dev : UsbDevice) : Usb (Option ConfigDescriptor) :=
  Program.perform (UsbCall.getActiveConfigDescriptor dev)
def getConfigDescriptor (dev : UsbDevice) (index : UInt8) : Usb (Option ConfigDescriptor) :=
  Program.perform (UsbCall.getConfigDescriptor dev index)
def freeConfigDescriptor (conf : ConfigDescriptor) : Usb Unit :=
  Program.perform (UsbCall.freeConfigDescriptor conf)
def libusbOpen (dev : UsbDevice) : Usb (Option UsbHandle) :=
  Program.perform (UsbCall.libusbOpen dev)
def libusbClose (handle : UsbHandle) : Usb Unit := Program.perform (UsbCall.libusbClose handle)
def getStringDescriptor (handle : UsbHandle) (index : UInt8) (lang : UInt16) (length : Nat) :
    Usb (Option Bytes) := Program.perform (UsbCall.getStringDescriptor handle index lang length)
def kernelDriverActive (handle : UsbHandle) (interface : UInt8) : Usb Int :=
  Program.perform (UsbCall.kernelDriverActive handle interface)
def detachKernelDriver (handle : UsbHandle) (interface : UInt8) : Usb Int :=
  Program.perform (UsbCall.detachKernelDriver handle interface)
def claimInterface (handle : UsbHandle) (interface : UInt8) : Usb Int :=
  Program.perform (UsbCall.claimInterface handle interface)
def releaseInterface (handle : UsbHandle) (interface : UInt8) : Usb Int :=
  Program.perform (UsbCall.releaseInterface handle interface)
def controlTransfer (handle : UsbHandle) (requestType request : UInt8) (value index : UInt16)
    (data : Bytes) (timeout : Nat) : Usb Int :=
  Program.perform (UsbCall.controlTransfer handle requestType request value index data timeout)
def interruptTransfer (handle : UsbHandle) (endpoint : UInt8) (data : Bytes) (timeout : Nat) :
    Usb (Int × Int) := Program.perform (UsbCall.interruptTransfer handle endpoint data timeout)
def startReadThread (handle : UsbHandle) : Usb Unit :=
  Program.perform (UsbCall.startReadThread handle)
def malloc (size : UInt16) : Usb (Option Nat) := Program.perform (UsbCall.malloc size)
def allocTransfer : Usb (Option Nat) := Program.perform UsbCall.allocTransfer
def submitTransfer (handle : UsbHandle) (endpoint : UInt8) (transfer : Transfer)
    (length : UInt16) : Usb Int :=
  Program.perform (UsbCall.submitTransfer handle endpoint transfer length)
def stopReadThread (handle : UsbHandle) : Usb Unit :=
  Program.perform (UsbCall.stopReadThread handle)
def freeTransfer (transfer : Nat) : Usb Unit := Program.perform (UsbCall.freeTransfer transfer)
def takeReport (handle : UsbHandle) (length : Nat) (milliseconds : Int) : Usb Received :=
  Program.perform (UsbCall.takeReport handle length milliseconds)
def getUsbCodeForCurrentLocale : Usb UInt16 :=
  Program.perform UsbCall.getUsbCodeForCurrentLocale
def iconvOpen : Usb (Option Nat) := Program.perform UsbCall.iconvOpen
def iconvClose (ic : Nat) : Usb Unit := Program.perform (UsbCall.iconvClose ic)
def calloc (record : Zeroed) : Usb (Option Nat) := Program.perform (UsbCall.calloc record)
def wcsdup (text : List UInt32) : Usb (Option Nat) := Program.perform (UsbCall.wcsdup text)
def strdup (s : String) : Usb (Option Nat) := Program.perform (UsbCall.plain (.strdup s none))
def free (block : Nat) : Usb Unit := Program.perform (UsbCall.plain (.free block))

end Libfcd.Hidapi
