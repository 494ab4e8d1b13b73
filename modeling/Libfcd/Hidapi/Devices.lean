import Libfcd.Hidapi.Usb
import Libfcd.Model.Strings

namespace Libfcd.Hidapi
open Interaction Memory Model

def libusbClassHid : UInt8 := 3

/-- The language IDs of string descriptor 0, read in place as `uint16_t`. -/
def words (host : Endian) : Bytes → List UInt16
  | x :: y :: rest => load16 host [x, y] :: words host rest
  | _ => []

/-- A string descriptor in a local buffer of `length` bytes, and no more of it. -/
def readString (handle : UsbHandle) (index : UInt8) (lang : UInt16) (length : Nat) :
    Usb (Option Bytes) := do
  match ← getStringDescriptor handle index lang length with
  | none => pure none
  | some buf => .expect (if buf.length ≤ length then some (some buf) else none)

def getFirstLanguage (host : Endian) (handle : UsbHandle) : Usb UInt16 := do
  match ← readString handle 0 0 64 with
  | none => pure 0
  | some buf => pure (if buf.length < 4 then 0 else (words host buf).getD 1 0)

def isLanguageSupported (host : Endian) (handle : UsbHandle) (lang : UInt16) : Usb Bool := do
  match ← readString handle 0 0 64 with
  | none => pure false
  | some buf => pure (decide (4 ≤ buf.length ∧ lang ∈ (words host buf).tail))

/-- `iconv` from UTF-16LE to `wchar_t`. It fails on a lone half of a surrogate
pair and on a byte that is left over. -/
def utf16 : Bytes → Option (List UInt32)
  | [] => some []
  | [_] => none
  | a :: b :: rest =>
    let u := load16 .little [a, b]
    if 0xd800 ≤ u ∧ u < 0xdc00 then
      match rest with
      | c :: d :: rest =>
        let v := load16 .little [c, d]
        let point : UInt32 := (u - 0xd800).toUInt32 * 0x400 + (v - 0xdc00).toUInt32 + 0x10000
        if 0xdc00 ≤ v ∧ v < 0xe000 then (utf16 rest).map (point :: ·) else none
      | _ => none
    else if 0xdc00 ≤ u ∧ u < 0xe000 then none
    else (utf16 rest).map (u.toUInt32 :: ·)

/-- A `wchar_t *` that is not NULL: its block and its text. -/
structure WString where
  addr : Nat
  text : List UInt32
  deriving DecidableEq, Repr

/-- The language in which a string is asked for. -/
def languageFor (host : Endian) (handle : UsbHandle) : Usb UInt16 := do
  let lang ← getUsbCodeForCurrentLocale
  let supported ← isLanguageSupported host handle lang
  if supported then pure lang else getFirstLanguage host handle

/-- `len-2` is a `size_t`, so an answer without its two leading bytes sends `iconv`
past the buffer. -/
def getUsbString (host : Endian) (handle : UsbHandle) (idx : UInt8) : Usb (Option WString) := do
  let lang ← languageFor host handle
  match ← readString handle idx lang 512 with
  | none => pure none
  | some buf =>
    match ← iconvOpen with
    | none => pure none
    | some ic => do
      let inbytes ← .expect (if 2 ≤ buf.length then some (buf.drop 2) else none)
      match utf16 inbytes with
      | none => do
        iconvClose ic
        pure none
      | some wbuf => do
        let text := wbuf.takeWhile (· ≠ 0)
        let str ← wcsdup text
        iconvClose ic
        pure (str.map (⟨·, text⟩))

/-- What `make_path` prints. -/
def pathOf (busNumber deviceAddress interfaceNumber : UInt8) : String :=
  hex 4 busNumber.toNat ++ ":" ++ hex 4 deviceAddress.toNat ++ ":" ++ hex 2 interfaceNumber.toNat

/-- A `char *` that is not NULL. -/
structure DevPath where
  addr : Nat
  text : String
  deriving DecidableEq, Repr

def makePath (dev : UsbDevice) (interfaceNumber : UInt8) : Usb (Option DevPath) := do
  let text := pathOf dev.busNumber dev.deviceAddress interfaceNumber
  let copy ← strdup text
  pure (copy.map (⟨·, text⟩))

/-- The result is 0 or -1. `usbContext` is whether the static variable of that
name is set; the locale is left alone. -/
def hidInit (usbContext : Bool) : Usb (Int × Bool) :=
  if usbContext then pure (0, true)
  else do
    let res ← libusbInit
    pure (if res ≠ 0 then (-1, false) else (0, true))

/-- A `struct hid_device_info`. Its link is the order of the list, and the two
fields for the usage stay zero. -/
structure DeviceInfo where
  addr : Nat
  path : Option DevPath
  vendorId : UInt16
  productId : UInt16
  serialNumber : Option WString
  releaseNumber : UInt16
  manufacturerString : Option WString
  productString : Option WString
  interfaceNumber : UInt8
  deriving DecidableEq, Repr

/-- A string of an opened device, if its descriptor has one. -/
def stringAt (host : Endian) (handle : UsbHandle) (index : UInt8) : Usb (Option WString) :=
  if index > 0 then getUsbString host handle index else pure none

/-- The record of a device that matches. Without a device handle its strings stay
NULL. -/
def fillInfo (host : Endian) (dev : UsbDevice) (desc : DeviceDescriptor)
    (interfaceNum : UInt8) : Usb DeviceInfo := do
  let tmp ← calloc .deviceInfo
  let tmp ← .expect tmp
  let path ← makePath dev interfaceNum
  let info : DeviceInfo :=
    ⟨tmp, path, desc.idVendor, desc.idProduct, none, desc.bcdDevice, none, none, interfaceNum⟩
  match ← libusbOpen dev with
  | none => pure info
  | some handle => do
    let serialNumber ← stringAt host handle desc.iSerialNumber
    let manufacturerString ← stringAt host handle desc.iManufacturer
    let productString ← stringAt host handle desc.iProduct
    libusbClose handle
    pure { info with serialNumber, manufacturerString, productString }

/-- The tests of `hid_enumerate` on one altsetting: zero stands for any vendor and
any product. -/
def matchesQuery (vendorId productId : UInt16) (desc : DeviceDescriptor)
    (intfDesc : InterfaceDescriptor) : Bool :=
  intfDesc.bInterfaceClass = libusbClassHid ∧ (vendorId = 0 ∨ vendorId = desc.idVendor) ∧
    (productId = 0 ∨ productId = desc.idProduct)

/-- One round of the loop over altsettings, on the records made so far. -/
def listAltsetting (host : Endian) (vendorId productId : UInt16) (dev : UsbDevice)
    (desc : DeviceDescriptor) (infos : List DeviceInfo) (intfDesc : InterfaceDescriptor) :
    Usb (List DeviceInfo) :=
  if matchesQuery vendorId productId desc intfDesc then do
    let info ← fillInfo host dev desc intfDesc.bInterfaceNumber
    pure (infos ++ [info])
  else pure infos

/-- The active configuration, or the first for a device that is not configured. -/
def anyConfigDescriptor (dev : UsbDevice) : Usb (Option ConfigDescriptor) := do
  match ← getActiveConfigDescriptor dev with
  | some confDesc => pure (some confDesc)
  | none => getConfigDescriptor dev 0

/-- One round of the loop over devices. -/
def listDevice (host : Endian) (vendorId productId : UInt16) (infos : List DeviceInfo)
    (dev : UsbDevice) : Usb (List DeviceInfo) := do
  let desc ← getDeviceDescriptor dev
  match ← anyConfigDescriptor dev with
  | none => pure infos
  | some confDesc => do
    let infos ← confDesc.interface.foldlM
      (fun infos intf => intf.foldlM (listAltsetting host vendorId productId dev desc) infos) infos
    freeConfigDescriptor confDesc
    pure infos

/-- The list comes with the static variable. -/
def hidEnumerate (host : Endian) (vendorId productId : UInt16) (usbContext : Bool) :
    Usb (List DeviceInfo × Bool) := do
  let (res, usbContext) ← hidInit usbContext
  if res < 0 then pure ([], usbContext)
  else
    match ← getDeviceList with
    | none => pure ([], usbContext)
    | some devs => do
      let infos ← devs.devs.foldlM (listDevice host vendorId productId) []
      freeDeviceList devs
      pure (infos, usbContext)

/-- `free` on a pointer that may be NULL. -/
def freeIfAny : Option Nat → Usb Unit
  | some block => free block
  | none => pure ()

def hidFreeEnumeration : List DeviceInfo → Usb Unit
  | [] => pure ()
  | d :: next => do
    freeIfAny (d.path.map DevPath.addr)
    freeIfAny (d.serialNumber.map WString.addr)
    freeIfAny (d.manufacturerString.map WString.addr)
    freeIfAny (d.productString.map WString.addr)
    free d.addr
    hidFreeEnumeration next

/-- A `hid_device` as far as one thread uses it, at the address `addr`. -/
structure HidDevice where
  addr : Nat
  deviceHandle : Option UsbHandle
  inputEndpoint : UInt8
  outputEndpoint : UInt8
  inputEpMaxPacketSize : UInt16
  interface : UInt8
  manufacturerIndex : UInt8
  productIndex : UInt8
  serialIndex : UInt8
  blocking : Bool
  transfer : Option Transfer
  deriving DecidableEq, Repr

def newHidDevice (addr : Nat) : HidDevice := ⟨addr, none, 0, 0, 0, 0, 0, 0, 0, true, none⟩

def EndpointDescriptor.isInterrupt (ep : EndpointDescriptor) : Bool := ep.bmAttributes &&& 3 = 3
def EndpointDescriptor.isInput (ep : EndpointDescriptor) : Bool :=
  ep.bEndpointAddress &&& 0x80 = 0x80
def EndpointDescriptor.isOutput (ep : EndpointDescriptor) : Bool :=
  ep.bEndpointAddress &&& 0x80 = 0

/-- One round of the loop over endpoints: the first of a direction is kept. -/
def HidDevice.useEndpoint (dev : HidDevice) (ep : EndpointDescriptor) : HidDevice :=
  let dev := if dev.inputEndpoint = 0 ∧ ep.isInterrupt ∧ ep.isInput then
    { dev with inputEndpoint := ep.bEndpointAddress, inputEpMaxPacketSize := ep.wMaxPacketSize }
    else dev
  if dev.outputEndpoint = 0 ∧ ep.isInterrupt ∧ ep.isOutput then
    { dev with outputEndpoint := ep.bEndpointAddress }
  else dev

/-- What is stored once the interface is claimed. -/
def HidDevice.configure (dev : HidDevice) (desc : DeviceDescriptor)
    (intfDesc : InterfaceDescriptor) : HidDevice :=
  intfDesc.endpoint.foldl HidDevice.useEndpoint
    { dev with
      manufacturerIndex := desc.iManufacturer
      productIndex := desc.iProduct
      serialIndex := desc.iSerialNumber
      interface := intfDesc.bInterfaceNumber }

/-- The variables of `hid_open_path` that its loops change. -/
structure Attempt where
  dev : HidDevice
  goodOpen : Bool
  deriving DecidableEq, Repr

/-- The kernel driver is detached if there is one. Whether that went well. -/
def detachDriver (handle : UsbHandle) (interface : UInt8) : Usb Bool := do
  let active ← kernelDriverActive handle interface
  if active = 1 then do
    let res ← detachKernelDriver handle interface
    pure (decide (0 ≤ res))
  else pure true

/-- `read_thread` up to the barrier at which `hid_open_path` waits for it. The result
of the first submission is not looked at. -/
def readThread (handle : UsbHandle) (inputEndpoint : UInt8) (length : UInt16) : Usb Transfer := do
  startReadThread handle
  let buf ← malloc length
  let transfer ← allocTransfer
  let transfer ← .expect transfer
  let _ ← submitTransfer handle inputEndpoint ⟨transfer, buf⟩ length
  pure ⟨transfer, buf⟩

/-- The block of `hid_open_path` for an altsetting with the right path, which is in
`devPath`. The flag is whether the loop over altsettings is left by a `break`. -/
def openMatched (usbDev : UsbDevice) (desc : DeviceDescriptor) (intfDesc : InterfaceDescriptor)
    (devPath : Nat) (s : Attempt) : Usb (Attempt × Bool) := do
  match ← libusbOpen usbDev with
  | none => do
    free devPath
    pure (s, true)
  | some handle => do
    let s : Attempt := ⟨{ s.dev with deviceHandle := some handle }, true⟩
    let detached ← detachDriver handle intfDesc.bInterfaceNumber
    if detached then do
      let res ← claimInterface handle intfDesc.bInterfaceNumber
      if res < 0 then do
        free devPath
        libusbClose handle
        pure ({ s with goodOpen := false }, true)
      else do
        let dev := s.dev.configure desc intfDesc
        let transfer ← readThread handle dev.inputEndpoint dev.inputEpMaxPacketSize
        free devPath
        pure ({ s with dev := { dev with transfer := some transfer } }, false)
    else do
      libusbClose handle
      free devPath
      pure ({ s with goodOpen := false }, true)

/-- The loop over the altsettings of one interface. -/
def openAltsettings (path : String) (usbDev : UsbDevice) (desc : DeviceDescriptor) :
    List InterfaceDescriptor → Attempt → Usb Attempt
  | [], s => pure s
  | intfDesc :: rest, s =>
    if intfDesc.bInterfaceClass = libusbClassHid then do
      let devPath ← makePath usbDev intfDesc.bInterfaceNumber
      let devPath ← .expect devPath
      if devPath.text = path then do
        let (s, left) ← openMatched usbDev desc intfDesc devPath.addr s
        if left then pure s else openAltsettings path usbDev desc rest s
      else do
        free devPath.addr
        openAltsettings path usbDev desc rest s
    else openAltsettings path usbDev desc rest s

/-- One round of the loop over devices. Those that are not configured are passed
over. -/
def openDevice (path : String) (s : Attempt) (usbDev : UsbDevice) : Usb Attempt := do
  let desc ← getDeviceDescriptor usbDev
  match ← getActiveConfigDescriptor usbDev with
  | none => pure s
  | some confDesc => do
    let s ← confDesc.interface.foldlM
      (fun s intf => openAltsettings path usbDev desc intf s) s
    freeConfigDescriptor confDesc
    pure s

/-- The result of `libusb_get_device_list` is not looked at, and `devs` is followed
even where it was never set. -/
def hidOpenPath (path : String) (usbContext : Bool) : Usb (Option HidDevice × Bool) := do
  let addr ← calloc .hidDevice
  let addr ← .expect addr
  let (res, usbContext) ← hidInit usbContext
  if res < 0 then pure (none, usbContext)
  else do
    let devs ← getDeviceList
    let devs ← .expect devs
    let s ← devs.devs.foldlM (openDevice path) ⟨newHidDevice addr, false⟩
    freeDeviceList devs
    if s.goodOpen then pure (some s.dev, usbContext)
    else do
      free addr
      pure (none, usbContext)

/-- The comparison of serial numbers in `hid_open`. `wcscmp` on a record that has none
is `none`. -/
def serialMatches (serialNumber : Option (List UInt32)) (curDev : DeviceInfo) : Option Bool :=
  match serialNumber with
  | none => some true
  | some serial => curDev.serialNumber.map (fun s => s.text = serial)

/-- The loop of `hid_open` over the records. -/
def pathToOpen (vendorId productId : UInt16) (serialNumber : Option (List UInt32)) :
    List DeviceInfo → Option (Option DevPath)
  | [] => some none
  | curDev :: next =>
    if curDev.vendorId = vendorId ∧ curDev.productId = productId then do
      if ← serialMatches serialNumber curDev then pure curDev.path
      else pathToOpen vendorId productId serialNumber next
    else pathToOpen vendorId productId serialNumber next

def hidOpen (host : Endian) (vendorId productId : UInt16) (serialNumber : Option (List UInt32))
    (usbContext : Bool) : Usb (Option HidDevice × Bool) := do
  let (devs, usbContext) ← hidEnumerate host vendorId productId usbContext
  let path ← .expect (pathToOpen vendorId productId serialNumber devs)
  let (handle, usbContext) ←
    match path with
    | some path => hidOpenPath path.text usbContext
    | none => pure (none, usbContext)
  hidFreeEnumeration devs
  pure (handle, usbContext)

/-- A report ID of zero is not sent. -/
def hidWrite (dev : HidDevice) (data : Bytes) : Usb Int := do
  let handle ← .expect dev.deviceHandle
  let reportNumber ← .expect data.head?
  let skipped : Int := if reportNumber = 0 then 1 else 0
  let sent := if reportNumber = 0 then data.tail else data
  if dev.outputEndpoint = 0 then do
    let res ← controlTransfer handle 0x21 0x09 (0x0200 ||| reportNumber.toUInt16)
      dev.interface.toUInt16 sent 1000
    pure (if res < 0 then -1 else sent.length + skipped)
  else do
    let (res, actualLength) ← interruptTransfer handle dev.outputEndpoint sent 1000
    pure (if res < 0 then -1 else actualLength + skipped)

def hidRead (dev : HidDevice) (length : Nat) : Usb Received := do
  let handle ← .expect dev.deviceHandle
  takeReport handle length (if dev.blocking then -1 else 0)

/-- The records of reports that are left in the queue go with the device. -/
def hidClose (dev : HidDevice) : Usb Unit := do
  let handle ← .expect dev.deviceHandle
  let transfer ← .expect dev.transfer
  stopReadThread handle
  freeIfAny transfer.buffer
  freeTransfer transfer.addr
  let _ ← releaseInterface handle dev.interface
  libusbClose handle
  free dev.addr

end Libfcd.Hidapi
