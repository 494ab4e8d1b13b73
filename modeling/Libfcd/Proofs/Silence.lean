import Libfcd.Hidapi.Stack
import Libfcd.Interaction.Pieces

namespace Libfcd.Proofs
open Interaction Memory Hidapi
open Model (Call)

/-- A call by which nothing is sent to a device and nothing is put out. -/
def Silent : UsbCall → Prop
  | .controlTransfer .. | .interruptTransfer .. | .plain (.print ..) => False
  | _ => True

/-- A silent call that claims no interface. -/
def Still : UsbCall → Prop
  | .claimInterface .. | .controlTransfer .. | .interruptTransfer .. | .plain (.print ..) => False
  | _ => True

theorem Still.silent {c : UsbCall} (h : Still c) : Silent c := by
  cases c with
  | plain c => cases c <;> trivial
  | _ => trivial

theorem readString_still (handle : UsbHandle) (index : UInt8) (lang : UInt16) (length : Nat) :
    Program.Confined Still (readString handle index lang length) (fun _ => True) := by
  refine .perform trivial (fun (buf : Option Bytes) => ?_)
  cases buf with
  | none => trivial
  | some buf => exact .expect _

theorem languageFor_still (host : Endian) (handle : UsbHandle) :
    Program.Confined Still (languageFor host handle) (fun _ => True) := by
  refine .perform trivial (fun lang => ?_)
  refine Program.Confined.bind (Q := fun _ => True) ?_ (fun supported _ => ?_)
  · refine (readString_still handle 0 0 64).bind (fun buf _ => ?_)
    cases buf with
    | none => trivial
    | some buf => trivial
  · split
    · trivial
    · refine (readString_still handle 0 0 64).bind (fun buf _ => ?_)
      cases buf with
      | none => trivial
      | some buf => trivial

theorem stringAt_still (host : Endian) (handle : UsbHandle) (index : UInt8) :
    Program.Confined Still (stringAt host handle index) (fun _ => True) := by
  unfold stringAt
  split
  · refine (languageFor_still host handle).bind (fun lang _ => ?_)
    refine (readString_still handle index lang 512).bind (fun buf _ => ?_)
    cases buf with
    | none => trivial
    | some buf =>
      refine .perform trivial (fun (ic : Option Nat) => ?_)
      cases ic with
      | none => trivial
      | some ic =>
        refine (Program.Confined.expect _).bind (fun inbytes _ => ?_)
        cases utf16 inbytes with
        | none => exact .perform trivial (fun _ => trivial)
        | some wbuf =>
          exact .perform trivial (fun _ =>
            .perform trivial (fun _ => trivial))
  · trivial

theorem fillInfo_still (host : Endian) (dev : UsbDevice) (desc : DeviceDescriptor)
    (interfaceNum : UInt8) :
    Program.Confined Still (fillInfo host dev desc interfaceNum) (fun _ => True) := by
  refine .perform trivial (fun addr => ?_)
  refine (Program.Confined.expect _).bind (fun tmp _ => ?_)
  refine .perform trivial (fun copy => ?_)
  refine .perform trivial (fun (handle : Option UsbHandle) => ?_)
  cases handle with
  | none => trivial
  | some handle =>
    refine (stringAt_still host handle _).bind (fun _ _ => ?_)
    refine (stringAt_still host handle _).bind (fun _ _ => ?_)
    refine (stringAt_still host handle _).bind (fun _ _ => ?_)
    exact .perform trivial (fun _ => trivial)

theorem listAltsetting_still (host : Endian) (vendorId productId : UInt16) (dev : UsbDevice)
    (desc : DeviceDescriptor) (infos : List DeviceInfo) (intfDesc : InterfaceDescriptor) :
    Program.Confined Still (listAltsetting host vendorId productId dev desc infos intfDesc)
      (fun _ => True) := by
  unfold listAltsetting
  split
  · exact (fillInfo_still host dev desc _).bind (fun _ _ => trivial)
  · trivial

theorem listDevice_still (host : Endian) (vendorId productId : UInt16) (infos : List DeviceInfo)
    (dev : UsbDevice) :
    Program.Confined Still (listDevice host vendorId productId infos dev) (fun _ => True) := by
  refine .perform trivial (fun desc => ?_)
  refine Program.Confined.bind (Q := fun _ => True) ?_ (fun confDesc _ => ?_)
  · refine .perform trivial (fun (confDesc : Option ConfigDescriptor) => ?_)
    cases confDesc with
    | none => exact ⟨trivial, fun _ => trivial⟩
    | some confDesc => trivial
  · cases confDesc with
    | none => trivial
    | some confDesc =>
      refine (Program.Confined.foldlM (fun infos intf => ?_) _ _).bind (fun _ _ => ?_)
      · exact .foldlM (fun infos intfDesc =>
          listAltsetting_still host vendorId productId dev desc infos intfDesc) _ _
      · exact .perform trivial (fun _ => trivial)

theorem hidInit_still (usbContext : Bool) :
    Program.Confined Still (hidInit usbContext) (fun _ => True) := by
  unfold hidInit
  split
  · trivial
  · exact .perform trivial (fun _ => trivial)

theorem hidEnumerate_still (host : Endian) (vendorId productId : UInt16) (usbContext : Bool) :
    Program.Confined Still (hidEnumerate host vendorId productId usbContext) (fun _ => True) := by
  refine (hidInit_still usbContext).bind (fun r _ => ?_)
  obtain ⟨res, usbContext⟩ := r
  dsimp only
  split
  · trivial
  · refine .perform trivial (fun (devs : Option UsbList) => ?_)
    cases devs with
    | none => trivial
    | some devs =>
      refine (Program.Confined.foldlM
        (listDevice_still host vendorId productId) _ _).bind (fun _ _ => ?_)
      exact .perform trivial (fun _ => trivial)

theorem hidFreeEnumeration_still (infos : List DeviceInfo) :
    Program.Confined Still (hidFreeEnumeration infos) (fun _ => True) := by
  have hfree : ∀ block, Program.Confined Still (freeIfAny block) (fun _ => True) := by
    intro block
    cases block with
    | none => trivial
    | some block => exact ⟨trivial, fun _ => trivial⟩
  induction infos with
  | nil => trivial
  | cons d next ih =>
    refine (hfree _).bind (fun _ _ => (hfree _).bind (fun _ _ => (hfree _).bind (fun _ _ =>
      (hfree _).bind (fun _ _ => ?_))))
    exact .perform trivial (fun _ => ih)

theorem hidClose_still (dev : HidDevice) :
    Program.Confined Still (hidClose dev) (fun _ => True) := by
  refine .expect_bind (fun handle _ => .expect_bind (fun transfer _ => ?_))
  refine .perform trivial (fun _ => ?_)
  refine Program.Confined.bind (Q := fun _ => True) ?_ (fun _ _ => ?_)
  · cases transfer.buffer with
    | none => trivial
    | some block => exact ⟨trivial, fun _ => trivial⟩
  · exact .perform trivial (fun _ => .perform trivial (fun _ => .perform trivial (fun _ =>
      ⟨trivial, fun _ => trivial⟩)))

theorem hidRead_still (dev : HidDevice) (length : Nat) :
    Program.Confined Still (hidRead dev length) (fun _ => True) :=
  .expect_bind (fun _ _ => ⟨trivial, fun _ => trivial⟩)

theorem readThread_still (handle : UsbHandle) (inputEndpoint : UInt8) (length : UInt16) :
    Program.Confined Still (readThread handle inputEndpoint length) (fun _ => True) := by
  refine .perform trivial (fun _ => .perform trivial (fun buf => .perform trivial (fun res => ?_)))
  exact .expect_bind (fun transfer _ => .perform trivial (fun _ => trivial))

theorem detachDriver_still (handle : UsbHandle) (interface : UInt8) :
    Program.Confined Still (detachDriver handle interface) (fun _ => True) := by
  refine .perform trivial (fun (active : Int) => ?_)
  split
  · exact .perform trivial (fun _ => trivial)
  · trivial

theorem openMatched_silent (usbDev : UsbDevice) (desc : DeviceDescriptor)
    (intfDesc : InterfaceDescriptor) (devPath : Nat) (s : Attempt) :
    Program.Confined Silent (openMatched usbDev desc intfDesc devPath s) (fun _ => True) := by
  refine .perform trivial (fun (handle : Option UsbHandle) => ?_)
  cases handle with
  | none => exact .perform trivial (fun _ => trivial)
  | some handle =>
    refine ((detachDriver_still handle _).mono fun _ => Still.silent).bind (fun detached _ => ?_)
    split
    · refine .perform trivial (fun (res : Int) => ?_)
      split
      · exact .perform trivial (fun _ => .perform trivial (fun _ => trivial))
      · refine ((readThread_still handle _ _).mono fun _ => Still.silent).bind (fun _ _ => ?_)
        exact .perform trivial (fun _ => trivial)
    · exact .perform trivial (fun _ => .perform trivial (fun _ => trivial))

theorem openAltsettings_silent (path : String) (usbDev : UsbDevice) (desc : DeviceDescriptor)
    (intf : List InterfaceDescriptor) (s : Attempt) :
    Program.Confined Silent (openAltsettings path usbDev desc intf s) (fun _ => True) := by
  induction intf generalizing s with
  | nil => trivial
  | cons intfDesc rest ih =>
    rw [openAltsettings]
    split
    · refine .perform trivial (fun copy => .expect_bind (fun devPath _ => ?_))
      split
      · refine (openMatched_silent usbDev desc intfDesc _ s).bind (fun r _ => ?_)
        obtain ⟨s', left⟩ := r
        cases left with
        | true => trivial
        | false => exact ih s'
      · exact .perform trivial (fun _ => ih s)
    · exact ih s

theorem openDevice_silent (path : String) (s : Attempt) (usbDev : UsbDevice) :
    Program.Confined Silent (openDevice path s usbDev) (fun _ => True) := by
  refine .perform trivial (fun desc => ?_)
  refine .perform trivial (fun (confDesc : Option ConfigDescriptor) => ?_)
  cases confDesc with
  | none => trivial
  | some confDesc =>
    refine (Program.Confined.foldlM (fun s intf => ?_) _ _).bind (fun _ _ => ?_)
    · exact openAltsettings_silent path usbDev desc intf s
    · exact .perform trivial (fun _ => trivial)

/-- A device is opened without anything sent to it. -/
theorem hidOpenPath_silent (path : String) (usbContext : Bool) :
    Program.Confined Silent (hidOpenPath path usbContext) (fun _ => True) := by
  refine .perform trivial (fun addr => .expect_bind (fun addr _ => ?_))
  refine ((hidInit_still usbContext).mono fun _ => Still.silent).bind (fun r _ => ?_)
  obtain ⟨res, usbContext⟩ := r
  dsimp only
  split
  · trivial
  · refine .perform trivial (fun devs => .expect_bind (fun devs _ => ?_))
    refine (Program.Confined.foldlM (openDevice_silent path) _ _).bind (fun s _ => ?_)
    refine .perform trivial (fun _ => ?_)
    split
    · trivial
    · exact .perform trivial (fun _ => trivial)

/-- Of the calls to hidapi, opening alone claims and writing alone sends, and none puts
anything out. -/
theorem hidLibusb_still (host : Endian) {c : Call} (hopen : ∀ path, c ≠ .hidOpenPath path)
    (hwrite : ∀ dev data, c ≠ .hidWrite dev data) (hprint : ∀ stream text, c ≠ .print stream text)
    (t : Stack) : Program.Confined Still (hidLibusb host c t) (fun _ => True) := by
  cases c with
  | print stream text => exact absurd rfl (hprint stream text)
  | hidOpenPath path => exact absurd rfl (hopen path)
  | hidWrite dev data => exact absurd rfl (hwrite dev data)
  | hidRead dev length =>
    exact .expect_bind (fun dev _ => (hidRead_still dev length).bind (fun _ _ => trivial))
  | hidClose dev =>
    cases dev with
    | none => trivial
    | some dev => exact .expect_bind (fun dev _ => (hidClose_still dev).bind (fun _ _ => trivial))
  | hidEnumerate vendorId productId =>
    exact (hidEnumerate_still host vendorId productId t.usbContext).bind (fun _ _ => trivial)
  | hidFreeEnumeration devs =>
    exact .expect_bind (fun infos _ => (hidFreeEnumeration_still infos).bind (fun _ _ => trivial))
  | _ => exact ⟨trivial, fun _ => trivial⟩

theorem hidLibusb_silent (host : Endian) {c : Call} (hwrite : ∀ dev data, c ≠ .hidWrite dev data)
    (hprint : ∀ stream text, c ≠ .print stream text) (t : Stack) :
    Program.Confined Silent (hidLibusb host c t) (fun _ => True) := by
  by_cases hopen : ∃ path, c = .hidOpenPath path
  · obtain ⟨path, rfl⟩ := hopen
    refine (hidOpenPath_silent path t.usbContext).bind (fun r _ => ?_)
    obtain ⟨dev, usbContext⟩ := r
    cases dev with
    | none => trivial
    | some dev => trivial
  · exact (hidLibusb_still host (fun path hc => hopen ⟨path, hc⟩) hwrite hprint t).mono
      (fun _ => Still.silent)

end Libfcd.Proofs
