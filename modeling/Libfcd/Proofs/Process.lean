import Libfcd.Proofs.Belongings
import Libfcd.Proofs.Stack

namespace Libfcd.Proofs
open Interaction Memory Hidapi
open Model (Call)

/-- What a process has been given, as it runs on `hid-libusb.c`: blocks and files,
transfers of libusb, the converters of `iconv` that are open, and how often libusb was
set up. `fresh` is the block of a device that was made just now, and `lost` has those
for which libusb could not be set up thereafter. -/
structure Process where
  belongings : Belongings
  transfers : Multiset Nat
  converters : Multiset Nat
  contexts : Nat
  fresh : Option Nat
  lost : Multiset Nat
  deriving DecidableEq

/-- What `hid_open_path` forgets: devices for which libusb could not be set up, and
transfers with their buffers where a path leads to two altsettings. -/
structure Forgotten where
  devices : Multiset Nat
  buffers : Multiset Nat
  transfers : Multiset Nat
  paired : buffers.card ≤ transfers.card

namespace Forgotten

def nothing : Forgotten := ⟨0, 0, 0, le_rfl⟩

def device (addr : Nat) : Forgotten := ⟨{addr}, 0, 0, le_rfl⟩

/-- A transfer, if there is one, and the buffer that was made for it. -/
def transfer (t : Option Transfer) : Forgotten where
  devices := 0
  buffers := ((t.bind Transfer.buffer).toList : List Nat)
  transfers := ((t.map Transfer.addr).toList : List Nat)
  paired := by
    obtain _ | ⟨addr, _ | buffer⟩ := t <;> simp

def add (f g : Forgotten) : Forgotten where
  devices := f.devices + g.devices
  buffers := f.buffers + g.buffers
  transfers := f.transfers + g.transfers
  paired := by
    rw [Multiset.card_add, Multiset.card_add]
    exact Nat.add_le_add f.paired g.paired

end Forgotten

namespace Process

def empty : Process := ⟨.empty, 0, 0, 0, none, 0⟩

/-- With these blocks besides. -/
def hold (v : Process) (blocks : Multiset Nat) : Process :=
  { v with belongings := ⟨blocks + v.belongings.blocks, v.belongings.files⟩ }

/-- After anything but the making of a device. -/
def settle (v : Process) : Process := { v with fresh := none }

/-- After `libusb_init`. -/
def setUp (v : Process) (res : Int) : Process :=
  if res = 0 then { v.settle with contexts := v.contexts + 1 }
  else { v.settle with lost := (v.fresh.toList : Multiset Nat) + v.lost }

/-- The rules for what a process has been given: nothing is freed or closed that is
not there. -/
def watch : Watch UsbCall UsbCall.Answer Process := fun v e =>
  match e with
  | ⟨.calloc .hidDevice, addr⟩ =>
    some { v.hold (Option.toList addr : Multiset Nat) with fresh := addr }
  | ⟨.calloc .deviceInfo, addr⟩ => some (v.settle.hold (Option.toList addr : Multiset Nat))
  | ⟨.wcsdup _, addr⟩ => some (v.settle.hold (Option.toList addr : Multiset Nat))
  | ⟨.malloc _, addr⟩ => some (v.settle.hold (Option.toList addr : Multiset Nat))
  | ⟨.allocTransfer, addr⟩ =>
    some { v.settle with transfers := (Option.toList addr : Multiset Nat) + v.transfers }
  | ⟨.freeTransfer addr, _⟩ =>
    if addr ∈ v.transfers then some { v.settle with transfers := v.transfers.erase addr } else none
  | ⟨.libusbInit, res⟩ => some (v.setUp res)
  | ⟨.iconvOpen, ic⟩ =>
    some { v.settle with converters := (Option.toList ic : Multiset Nat) + v.converters }
  | ⟨.iconvClose ic, _⟩ =>
    if ic ∈ v.converters then some { v.settle with converters := v.converters.erase ic } else none
  | ⟨.plain c, r⟩ => (Belongings.watch v.belongings ⟨c, r⟩).map ({ v.settle with belongings := · })
  | _ => some v.settle

/-- The terms on which blocks are counted: nothing is promised, and a call through
a NULL pointer ends the run. -/
def terms : Terms UsbCall UsbCall.Answer Process := ⟨fun _ => True, watch, True⟩

abbrev Keeps {α : Type} (p : Usb α) (v : Process) (Q : α → Process → Prop) : Prop :=
  Program.Keeps terms p v Q

/-- Nothing was made just now. -/
def Calm (v : Process) : Prop := v.fresh = none

variable {α β : Type} {v : Process}

@[simp] theorem settle_of_calm (hv : v.Calm) : v.settle = v := by
  obtain ⟨belongings, transfers, converters, contexts, fresh, lost⟩ := v
  obtain rfl : fresh = none := hv
  rfl

theorem Calm.hold (hv : v.Calm) (blocks : Multiset Nat) : (v.hold blocks).Calm := hv

@[simp] theorem hold_zero (v : Process) : v.hold 0 = v := by
  simp [Process.hold]

@[simp] theorem hold_hold (v : Process) (xs ys : Multiset Nat) :
    (v.hold xs).hold ys = v.hold (ys + xs) := by
  simp [Process.hold, add_assoc]

@[simp] theorem settle_hold (v : Process) (blocks : Multiset Nat) :
    (v.hold blocks).settle = v.settle.hold blocks := rfl

/-- A call that is passed over by the rules. -/
def Quiet (c : UsbCall) : Prop := ∀ r v, watch v ⟨c, r⟩ = some v.settle

theorem quiet_keeps {c : UsbCall} {f : c.Answer → Usb β} {Q : β → Process → Prop} (hc : Quiet c)
    (hv : v.Calm) (hf : ∀ r, Keeps (f r) v Q) : Keeps (.perform c >>= f) v Q :=
  .perform (fun r _ => ⟨v, by rw [← settle_of_calm hv]; exact hc r v.settle, hf r⟩)

theorem free_keeps (hv : v.Calm) {blocks : Multiset Nat} {block : Nat} (hmem : block ∈ blocks)
    {f : Unit → Usb β} {Q : β → Process → Prop}
    (hf : Keeps (f ()) (v.hold (blocks.erase block)) Q) :
    Keeps (free block >>= f) (v.hold blocks) Q := by
  have hmem' : block ∈ blocks + v.belongings.blocks := Multiset.mem_add.mpr (.inl hmem)
  refine .perform (fun _ _ => ⟨_, ?_, hf⟩)
  simp [terms, watch, Belongings.watch, hold, hmem', Multiset.erase_add_left_pos _ hmem, settle,
    show v.fresh = none from hv]

theorem strdup_keeps (hv : v.Calm) (s : String) {f : Option Nat → Usb β}
    {Q : β → Process → Prop} (hf : ∀ addr, Keeps (f addr) (v.hold (addr.toList : Multiset Nat)) Q) :
    Keeps (strdup s >>= f) v Q :=
  .perform (fun (addr : Option Nat) _ => ⟨_, by
    simp [terms, watch, Belongings.watch, hold, settle_of_calm hv], hf addr⟩)

theorem wcsdup_keeps (hv : v.Calm) (text : List UInt32) {f : Option Nat → Usb β}
    {Q : β → Process → Prop} (hf : ∀ addr, Keeps (f addr) (v.hold (addr.toList : Multiset Nat)) Q) :
    Keeps (wcsdup text >>= f) v Q :=
  .perform (fun addr _ => ⟨_, by simp [terms, watch, settle_of_calm hv], hf addr⟩)

theorem deviceInfo_keeps (hv : v.Calm) {f : Option Nat → Usb β} {Q : β → Process → Prop}
    (hf : ∀ addr, Keeps (f addr) (v.hold (addr.toList : Multiset Nat)) Q) :
    Keeps (calloc .deviceInfo >>= f) v Q :=
  .perform (fun addr _ => ⟨_, by simp [terms, watch, settle_of_calm hv], hf addr⟩)

/-- With a converter open. -/
def convert (v : Process) (ic : Nat) : Process := { v with converters := ic ::ₘ v.converters }

theorem iconvClose_keeps (hv : v.Calm) (ic : Nat) (blocks : Multiset Nat) {f : Unit → Usb β}
    {Q : β → Process → Prop} (hf : Keeps (f ()) (v.hold blocks) Q) :
    Keeps (iconvClose ic >>= f) ((v.convert ic).hold blocks) Q :=
  .perform (fun _ _ => ⟨_, by simp [terms, watch, hold, convert, settle,
    show v.fresh = none from hv], hf⟩)

/-- What is asked about a string leaves the process as it was. -/
theorem readString_keeps (hv : v.Calm) (handle : UsbHandle) (index : UInt8) (lang : UInt16)
    (length : Nat) : Keeps (readString handle index lang length) v (fun _ v' => v' = v) := by
  apply quiet_keeps (fun _ _ => rfl) hv
  intro buf
  cases buf with
  | none => exact rfl
  | some buf => exact .expect (fun _ _ => rfl) (fun _ => trivial)

theorem languageFor_keeps (hv : v.Calm) (host : Endian) (handle : UsbHandle) :
    Keeps (languageFor host handle) v (fun _ v' => v' = v) := by
  apply quiet_keeps (fun _ _ => rfl) hv
  intro lang
  refine Program.Keeps.bind (P := fun _ v' => v' = v) ?_ ?_
  · refine (readString_keeps hv handle 0 0 64).bind ?_
    intro buf _ heq
    subst heq
    cases buf with
    | none => exact rfl
    | some buf => exact rfl
  · intro supported _ heq
    subst heq
    split
    · exact rfl
    · refine (readString_keeps hv handle 0 0 64).bind ?_
      intro buf _ heq
      subst heq
      cases buf with
      | none => exact rfl
      | some buf => exact rfl

/-- The block of a string, if there is one. -/
def textBlock (str : Option WString) : Multiset Nat := ((str.map WString.addr).toList : List Nat)

theorem getUsbString_keeps (hv : v.Calm) (host : Endian) (handle : UsbHandle) (idx : UInt8) :
    Keeps (getUsbString host handle idx) v (fun str v' => v' = v.hold (textBlock str)) := by
  have hnone : v = v.hold (textBlock none) := (hold_zero v).symm
  refine (languageFor_keeps hv host handle).bind ?_
  intro lang v heq
  subst heq
  refine (readString_keeps hv handle idx lang 512).bind ?_
  intro buf v heq
  subst heq
  cases buf with
  | none => exact hnone
  | some buf =>
    refine .perform (fun (ic : Option Nat) _ => ?_)
    cases ic with
    | none => exact ⟨v, by simp [terms, watch, settle_of_calm hv], hnone⟩
    | some ic =>
      refine ⟨v.convert ic, by simp [terms, watch, settle_of_calm hv, convert], ?_⟩
      apply Program.Keeps.expect_bind
      · intro inbytes _
        cases utf16 inbytes with
        | none =>
          have hclose := iconvClose_keeps hv ic 0 (f := fun _ => pure none)
            (Q := fun str v' => v' = v.hold (textBlock str)) rfl
          rwa [hold_zero] at hclose
        | some wbuf =>
          exact wcsdup_keeps (v := v.convert ic) hv _ (fun str =>
            iconvClose_keeps hv ic _ (by cases str <;> rfl))
      · exact fun _ => trivial

theorem stringAt_keeps (hv : v.Calm) (host : Endian) (handle : UsbHandle) (index : UInt8) :
    Keeps (stringAt host handle index) v (fun str v' => v' = v.hold (textBlock str)) := by
  unfold stringAt
  split
  · exact getUsbString_keeps hv host handle index
  · exact (hold_zero v).symm

/-- The block of a path, if there is one. -/
def pathBlock (path : Option DevPath) : Multiset Nat := ((path.map DevPath.addr).toList : List Nat)

theorem makePath_keeps (hv : v.Calm) (dev : UsbDevice) (interfaceNumber : UInt8) :
    Keeps (makePath dev interfaceNumber) v (fun path v' => v' = v.hold (pathBlock path)) :=
  strdup_keeps hv _ (fun copy => by cases copy <;> rfl)

/-- The blocks of a record. -/
def infoBlocks (info : DeviceInfo) : Multiset Nat :=
  pathBlock info.path + textBlock info.serialNumber + textBlock info.manufacturerString +
    textBlock info.productString + {info.addr}

theorem fillInfo_keeps (hv : v.Calm) (host : Endian) (dev : UsbDevice) (desc : DeviceDescriptor)
    (interfaceNum : UInt8) : Keeps (fillInfo host dev desc interfaceNum) v
      (fun info v' => v' = v.hold (infoBlocks info)) := by
  apply deviceInfo_keeps hv
  rintro (_ | tmp)
  · exact trivial
  refine (makePath_keeps (hv.hold _) dev interfaceNum).bind ?_
  intro path _ heq
  subst heq
  have hpath := (hv.hold (Option.toList (some tmp))).hold (pathBlock path)
  dsimp only
  apply quiet_keeps (fun _ _ => rfl) hpath
  intro handle
  cases handle with
  | none => simp [Keeps, Program.Keeps, infoBlocks, textBlock]
  | some handle =>
    refine (stringAt_keeps hpath host handle desc.iSerialNumber).bind ?_
    intro serialNumber _ heq
    subst heq
    have hserial := hpath.hold (textBlock serialNumber)
    refine (stringAt_keeps hserial host handle desc.iManufacturer).bind ?_
    intro manufacturerString _ heq
    subst heq
    have hmanufacturer := hserial.hold (textBlock manufacturerString)
    refine (stringAt_keeps hmanufacturer host handle desc.iProduct).bind ?_
    intro productString _ heq
    subst heq
    apply quiet_keeps (fun _ _ => rfl) (hmanufacturer.hold (textBlock productString))
    intro _
    change _ = v.hold _
    simp only [hold_hold, infoBlocks, Option.toList_some, Multiset.coe_singleton]
    congr 1
    ac_rfl

/-- The blocks of a list. -/
def listBlocks (infos : List DeviceInfo) : Multiset Nat := (infos.map infoBlocks).sum

theorem listAltsetting_keeps (hv : v.Calm) (host : Endian) (vendorId productId : UInt16)
    (dev : UsbDevice) (desc : DeviceDescriptor) (infos : List DeviceInfo)
    (intfDesc : InterfaceDescriptor) :
    Keeps (listAltsetting host vendorId productId dev desc infos intfDesc)
      (v.hold (listBlocks infos)) (fun infos v' => v' = v.hold (listBlocks infos)) := by
  unfold listAltsetting
  split
  · refine (fillInfo_keeps (hv.hold _) host dev desc _).bind ?_
    intro info _ heq
    subst heq
    change _ = v.hold _
    rw [hold_hold, add_comm, listBlocks, listBlocks, List.map_append, List.sum_append]
    simp
  · exact rfl

theorem listDevice_keeps (hv : v.Calm) (host : Endian) (vendorId productId : UInt16)
    (infos : List DeviceInfo) (dev : UsbDevice) :
    Keeps (listDevice host vendorId productId infos dev) (v.hold (listBlocks infos))
      (fun infos v' => v' = v.hold (listBlocks infos)) := by
  apply quiet_keeps (fun _ _ => rfl) (hv.hold _)
  intro desc
  refine Program.Keeps.bind (P := fun _ v' => v' = v.hold (listBlocks infos)) ?_ ?_
  · apply quiet_keeps (fun _ _ => rfl) (hv.hold _)
    intro confDesc
    cases confDesc with
    | none => exact fun _ _ => ⟨_, congrArg some (settle_of_calm (hv.hold _)), rfl⟩
    | some confDesc => exact rfl
  intro confDesc _ heq
  subst heq
  cases confDesc with
  | none => exact rfl
  | some confDesc =>
    let I : List (List InterfaceDescriptor) → List DeviceInfo → Process → Prop :=
      fun _ infos v' => v' = v.hold (listBlocks infos)
    have hintf : ∀ intf rest infos v', I (intf :: rest) infos v' → Keeps
        (intf.foldlM (listAltsetting host vendorId productId dev desc) infos) v' (I rest) := by
      intro intf rest infos _ heq
      subst heq
      exact Program.Keeps.foldlM (I := fun _ infos v' => v' = v.hold (listBlocks infos))
        (by
          intro intfDesc _ infos _ heq
          subst heq
          exact listAltsetting_keeps hv host vendorId productId dev desc infos intfDesc) rfl
    refine (Program.Keeps.foldlM (I := I) hintf rfl).bind ?_
    intro infos _ heq
    subst heq
    exact quiet_keeps (fun _ _ => rfl) (hv.hold _) (fun _ => rfl)

/-- With libusb set up, or not. -/
def within (v : Process) (usbContext : Bool) : Process := { v with contexts := usbContext.toNat }

theorem Calm.within (hv : v.Calm) (usbContext : Bool) : (v.within usbContext).Calm := hv

theorem within_hold (v : Process) (blocks : Multiset Nat) (usbContext : Bool) :
    (v.hold blocks).within usbContext = (v.within usbContext).hold blocks := rfl

theorem within_of_contexts {usbContext : Bool} (h : v.contexts = usbContext.toNat) :
    v.within usbContext = v := by
  rw [within, ← h]

/-- With these things given and forgotten. -/
def forget (v : Process) (f : Forgotten) : Process :=
  { v.hold (f.devices + f.buffers) with
    transfers := f.transfers + v.transfers
    lost := f.devices + v.lost }

theorem Calm.forget (hv : v.Calm) (f : Forgotten) : (v.forget f).Calm := hv

@[simp] theorem forget_nothing (v : Process) : v.forget .nothing = v := by
  simp [Process.forget, Process.hold, Forgotten.nothing]

@[simp] theorem forget_transfer_none (v : Process) : v.forget (.transfer none) = v := by
  simp [Process.forget, Process.hold, Forgotten.transfer]

theorem forget_forget (v : Process) (f g : Forgotten) :
    (v.forget f).forget g = v.forget (g.add f) := by
  simp only [Process.forget, Process.hold, Forgotten.add, Process.mk.injEq,
    Belongings.mk.injEq, and_true, true_and]
  refine ⟨?_, ?_, ?_⟩ <;> ac_rfl

theorem within_forget (v : Process) (f : Forgotten) (usbContext : Bool) :
    (v.forget f).within usbContext = (v.within usbContext).forget f := rfl

theorem forget_hold (v : Process) (f : Forgotten) (blocks : Multiset Nat) :
    (v.hold blocks).forget f = (v.forget f).hold blocks := by
  simp only [Process.forget, Process.hold, Process.mk.injEq, Belongings.mk.injEq, and_true]
  ac_rfl

/-- What `hid_init` has done to the process. -/
inductive Initialised (v : Process) : Int × Bool → Process → Prop where
  | already : Initialised v (0, true) (v.within true)
  | now : Initialised v (0, true) (v.settle.within true)
  | failed : Initialised v (-1, false)
      { v.settle.within false with lost := (v.fresh.toList : Multiset Nat) + v.lost }

theorem hidInit_keeps {usbContext : Bool} (hcontexts : v.contexts = usbContext.toNat) :
    Keeps (hidInit usbContext) v (fun r v' => Initialised v r v') := by
  cases usbContext with
  | true =>
    have halready := Initialised.already (v := v)
    rwa [within_of_contexts hcontexts] at halready
  | false =>
    refine fun (res : Int) _ => ⟨v.setUp res, rfl, ?_⟩
    change Initialised v (if res ≠ 0 then (-1, false) else (0, true)) (v.setUp res)
    by_cases hres : res = 0
    · rw [if_neg (not_not.mpr hres), setUp, if_pos hres, show v.contexts = 0 from hcontexts]
      exact .now
    · rw [if_pos hres, setUp, if_neg hres, ← within_of_contexts (v := v.settle) hcontexts]
      exact .failed

/-- A list that was made holds its blocks. -/
theorem hidEnumerate_keeps (hv : v.Calm) (host : Endian) (vendorId productId : UInt16)
    {usbContext : Bool} (hcontexts : v.contexts = usbContext.toNat) :
    Keeps (hidEnumerate host vendorId productId usbContext) v
      (fun r v' => v' = (v.hold (listBlocks r.1)).within r.2) := by
  have hlist : ∀ f : Option UsbList → Usb (List DeviceInfo × Bool), f none = pure ([], true) →
      (∀ devs, f (some devs) = do
        let infos ← devs.devs.foldlM (listDevice host vendorId productId) []
        freeDeviceList devs
        pure (infos, true)) →
      Keeps (getDeviceList >>= f) (v.within true)
        (fun r v' => v' = (v.hold (listBlocks r.1)).within r.2) := by
    intro f hnone hsome
    apply quiet_keeps (fun _ _ => rfl) (hv.within true)
    intro devs
    have hnil : v.within true = (v.within true).hold (listBlocks []) := (hold_zero _).symm
    cases devs with
    | none =>
      rw [hnone]
      exact hnil
    | some devs =>
      rw [hsome]
      refine (Program.Keeps.foldlM
        (I := fun _ infos v' => v' = (v.within true).hold (listBlocks infos)) ?_ hnil).bind ?_
      · intro dev _ infos _ heq
        subst heq
        exact listDevice_keeps (hv.within true) host vendorId productId infos dev
      · intro infos _ heq
        subst heq
        exact quiet_keeps (fun _ _ => rfl) ((hv.within true).hold _) (fun _ => rfl)
  refine (hidInit_keeps hcontexts).bind ?_
  rintro ⟨res, usbContext⟩ v' h
  cases h with
  | already => exact hlist _ rfl fun _ => rfl
  | now =>
    rw [settle_of_calm hv]
    exact hlist _ rfl fun _ => rfl
  | failed =>
    rw [show v.fresh = none from hv, settle_of_calm hv]
    simp [Program.Keeps, listBlocks, within]

theorem freeIfAny_keeps (hv : v.Calm) (block : Option Nat) (blocks : Multiset Nat)
    {f : Unit → Usb β} {Q : β → Process → Prop} (hf : Keeps (f ()) (v.hold blocks) Q) :
    Keeps (freeIfAny block >>= f) (v.hold ((block.toList : Multiset Nat) + blocks)) Q := by
  cases block with
  | none => simpa [freeIfAny] using hf
  | some block => exact free_keeps hv (by simp) (by simpa using hf)

/-- A list that is freed leaves nothing. -/
theorem hidFreeEnumeration_keeps (hv : v.Calm) (infos : List DeviceInfo) :
    Keeps (hidFreeEnumeration infos) (v.hold (listBlocks infos)) (fun _ v' => v' = v) := by
  induction infos with
  | nil => exact hold_zero v
  | cons d next ih =>
    rw [listBlocks, List.map_cons, List.sum_cons, infoBlocks, pathBlock, textBlock, textBlock,
      textBlock, ← listBlocks]
    simp only [add_assoc]
    apply freeIfAny_keeps hv
    apply freeIfAny_keeps hv
    apply freeIfAny_keeps hv
    apply freeIfAny_keeps hv
    exact free_keeps hv (by simp) (by simpa using ih)

theorem configure_addr (dev : HidDevice) (desc : DeviceDescriptor)
    (intfDesc : InterfaceDescriptor) : (dev.configure desc intfDesc).addr = dev.addr :=
  (useEndpoints_handle _ _).2.2

theorem detachDriver_keeps (hv : v.Calm) (handle : UsbHandle) (interface : UInt8) :
    Keeps (detachDriver handle interface) v (fun _ v' => v' = v) := by
  refine quiet_keeps (c := .kernelDriverActive handle interface) (fun _ _ => rfl) hv
    (fun (active : Int) => ?_)
  split
  · exact quiet_keeps (fun _ _ => rfl) hv (fun _ => rfl)
  · exact rfl

/-- A transfer is made for the thread, with its buffer. -/
theorem readThread_keeps (hv : v.Calm) (handle : UsbHandle) (inputEndpoint : UInt8)
    (length : UInt16) : Keeps (readThread handle inputEndpoint length) v
      (fun transfer v' => v' = v.forget (.transfer (some transfer))) := by
  refine quiet_keeps (c := .startReadThread handle) (fun _ _ => rfl) hv (fun _ => ?_)
  refine .perform (fun (buf : Option Nat) _ => ⟨_, rfl, ?_⟩)
  refine .perform (fun (addr : Option Nat) _ => ⟨_, rfl, ?_⟩)
  refine Program.Keeps.expect_bind (fun addr heq => ?_) (fun _ => trivial)
  subst heq
  refine fun res _ => ⟨_, rfl, show _ = v.forget _ from ?_⟩
  simp [forget, hold, settle, Forgotten.transfer, show v.fresh = none from hv]

/-- The device stays where it is. A transfer that it had before is forgotten. -/
def Kept (v : Process) (dev : HidDevice) (dev' : HidDevice) (v' : Process) : Prop :=
  dev'.addr = dev.addr ∧ ∃ f, v' = (v.forget f).forget (.transfer dev'.transfer)

theorem Kept.refl (v : Process) (dev : HidDevice) :
    Kept v dev dev (v.forget (.transfer dev.transfer)) := ⟨rfl, .nothing, by simp⟩

/-- The path is freed on each way out, and the device stays where it is. -/
theorem openMatched_keeps (hv : v.Calm) (usbDev : UsbDevice) (desc : DeviceDescriptor)
    (intfDesc : InterfaceDescriptor) (devPath : Nat) (s : Attempt) :
    Keeps (openMatched usbDev desc intfDesc devPath s)
      ((v.forget (.transfer s.dev.transfer)).hold {devPath})
      (fun r v' => Kept v s.dev r.1.dev v') := by
  have hcalm := hv.forget (.transfer s.dev.transfer)
  have hheld := hcalm.hold {devPath}
  have hfree : ∀ {β : Type} {f : Unit → Usb β} {Q : β → Process → Prop} {u : Process}, u.Calm →
      Keeps (f ()) u Q → Keeps (free devPath >>= f) (u.hold {devPath}) Q := fun hu hf =>
    free_keeps hu (by simp) (by simpa using hf)
  refine quiet_keeps (c := .libusbOpen usbDev) (fun _ _ => rfl) hheld
    (fun (handle : Option UsbHandle) => ?_)
  cases handle with
  | none => exact hfree hcalm (.refl v s.dev)
  | some handle =>
    refine (detachDriver_keeps hheld handle _).bind ?_
    intro detached _ heq
    subst heq
    split
    · refine quiet_keeps (c := .claimInterface handle _) (fun _ _ => rfl) hheld
        (fun (res : Int) => ?_)
      split
      · exact hfree hcalm (quiet_keeps (fun _ _ => rfl) hcalm (fun _ => .refl v s.dev))
      · refine (readThread_keeps hheld handle _ _).bind (fun transfer _ heq => ?_)
        subst heq
        rw [forget_hold]
        exact hfree (hcalm.forget _) ⟨configure_addr _ _ _, .transfer s.dev.transfer, rfl⟩
    · exact quiet_keeps (fun _ _ => rfl) hheld (fun _ => hfree hcalm (.refl v s.dev))

/-- One loop after the other. -/
theorem Kept.trans {v' v'' : Process} {dev dev' dev'' : HidDevice} {f : Forgotten}
    (hdev : dev'.addr = dev.addr) (hv' : v' = v.forget f) (h : Kept v' dev' dev'' v'') :
    Kept v dev dev'' v'' := by
  obtain ⟨haddr, g, rfl⟩ := h
  subst hv'
  exact ⟨haddr.trans hdev, g.add f, by rw [forget_forget v f g]⟩

theorem openAltsettings_keeps (hv : v.Calm) (path : String) (usbDev : UsbDevice)
    (desc : DeviceDescriptor) (intf : List InterfaceDescriptor) (s : Attempt) :
    Keeps (openAltsettings path usbDev desc intf s) (v.forget (.transfer s.dev.transfer))
      (fun s' v' => Kept v s.dev s'.dev v') := by
  induction intf generalizing v s with
  | nil => exact .refl v s.dev
  | cons intfDesc rest ih =>
    rw [openAltsettings]
    have hcalm := hv.forget (.transfer s.dev.transfer)
    split
    · refine (makePath_keeps hcalm usbDev _).bind ?_
      intro devPath _ heq
      subst heq
      refine Program.Keeps.expect_bind ?_ (fun _ => trivial)
      intro devPath heq
      subst heq
      split
      · refine (openMatched_keeps hv usbDev desc intfDesc devPath.addr s).bind ?_
        rintro ⟨s', left⟩ _ ⟨haddr, f, rfl⟩
        dsimp only
        split
        · exact ⟨haddr, f, rfl⟩
        · exact (ih (hv.forget f) s').mono (fun _ _ h => h.trans haddr rfl)
      · exact free_keeps hcalm (by simp [pathBlock]) (by simpa [pathBlock] using ih hv s)
    · exact ih hv s

theorem openDevice_keeps (hv : v.Calm) (path : String) (s : Attempt) (usbDev : UsbDevice) :
    Keeps (openDevice path s usbDev) (v.forget (.transfer s.dev.transfer))
      (fun s' v' => Kept v s.dev s'.dev v') := by
  have hcalm := hv.forget (.transfer s.dev.transfer)
  apply quiet_keeps (fun _ _ => rfl) hcalm
  intro desc
  apply quiet_keeps (fun _ _ => rfl) hcalm
  intro confDesc
  cases confDesc with
  | none => exact .refl v s.dev
  | some confDesc =>
    refine (Program.Keeps.foldlM (I := fun _ s' v' => Kept v s.dev s'.dev v') ?_
      (.refl v s.dev)).bind ?_
    · rintro intf _ s' _ ⟨haddr, f, rfl⟩
      exact (openAltsettings_keeps (hv.forget f) path usbDev desc intf s').mono
        (fun _ _ h => h.trans haddr rfl)
    · rintro s' _ ⟨haddr, f, rfl⟩
      exact quiet_keeps (fun _ _ => rfl) ((hv.forget f).forget _) (fun _ => ⟨haddr, f, rfl⟩)

/-- With a device that is open: its block, its transfer and the buffer of that. -/
def take (v : Process) : Option HidDevice → Process
  | some dev => (v.forget (.transfer dev.transfer)).hold {dev.addr}
  | none => v

theorem Calm.take (hv : v.Calm) (dev : Option HidDevice) : (v.take dev).Calm := by
  cases dev with
  | none => exact hv
  | some dev => exact hv

theorem take_within (v : Process) (dev : Option HidDevice) (usbContext : Bool) :
    (v.take dev).within usbContext = (v.within usbContext).take dev := by
  cases dev <;> rfl

theorem take_hold (v : Process) (dev : Option HidDevice) (blocks : Multiset Nat) :
    (v.hold blocks).take dev = (v.take dev).hold blocks := by
  cases dev with
  | none => rfl
  | some dev => simp [Process.take, forget_hold, add_comm]

/-- A device that was opened holds what belongs to it. A failure holds nothing but what
is forgotten. -/
theorem hidOpenPath_keeps (hv : v.Calm) (path : String) {usbContext : Bool}
    (hcontexts : v.contexts = usbContext.toNat) :
    Keeps (hidOpenPath path usbContext) v (fun r v' => ∃ f,
      v' = ((v.forget f).take r.1).within r.2) := by
  refine .perform (fun (addr : Option Nat) _ => ⟨_, rfl, ?_⟩)
  cases addr with
  | none => exact trivial
  | some addr =>
    have hsettle : ({ v.hold {addr} with fresh := some addr } : Process).settle = v.hold {addr} :=
      settle_of_calm (hv.hold {addr})
    refine (hidInit_keeps (v := { v.hold {addr} with fresh := some addr }) hcontexts).bind ?_
    have hrest : ∀ u : Process, u.settle = (v.hold {addr}).within true → Keeps (do
        let devs ← getDeviceList
        let devs ← .expect devs
        let s ← devs.devs.foldlM (openDevice path) ⟨newHidDevice addr, false⟩
        freeDeviceList devs
        if s.goodOpen then pure (some s.dev, true)
        else do
          free addr
          pure (none, true)) u (fun r v' => ∃ f, v' = ((v.forget f).take r.1).within r.2) := by
      intro u hu
      have hcalm := (hv.hold {addr}).within true
      refine .perform (fun (devs : Option UsbList) _ => ⟨_, congrArg some hu, ?_⟩)
      refine Program.Keeps.expect_bind (fun devs _ => ?_) (fun _ => trivial)
      refine (Program.Keeps.foldlM (I := fun _ s v' =>
        Kept ((v.hold {addr}).within true) (newHidDevice addr) s.dev v') ?_ ?_).bind ?_
      · rintro dev _ s _ ⟨haddr, f, rfl⟩
        exact (openDevice_keeps (hcalm.forget f) path s dev).mono
          (fun _ _ h => h.trans haddr rfl)
      · have hstart := Kept.refl ((v.hold {addr}).within true) (newHidDevice addr)
        rwa [show (newHidDevice addr).transfer = none from rfl, forget_transfer_none] at hstart
      · rintro s _ ⟨haddr, f, rfl⟩
        refine quiet_keeps (fun _ _ => rfl) ((hcalm.forget f).forget _) (fun _ => ?_)
        have haddr : s.dev.addr = addr := haddr
        have hheld : (((v.hold {addr}).within true).forget f).forget (.transfer s.dev.transfer) =
            (((v.forget f).forget (.transfer s.dev.transfer)).within true).hold {addr} := by
          rw [forget_forget, forget_forget, within_hold, forget_hold, within_forget]
        rw [hheld]
        split
        · exact ⟨f, by simp [take, haddr, within_hold]⟩
        · refine free_keeps (((hv.forget f).forget _).within true) (by simp) ?_
          exact ⟨(Forgotten.transfer s.dev.transfer).add f, by simp [take, forget_forget]⟩
    rintro ⟨res, usbContext⟩ v' h
    cases h with
    | already => exact hrest _ (congrArg (within · true) hsettle)
    | now =>
      rw [hsettle]
      exact hrest _ (settle_of_calm ((hv.hold {addr}).within true))
    | failed =>
      rw [hsettle]
      exact ⟨.device addr, by simp [forget, hold, take, within, Forgotten.device]⟩

theorem hidWrite_keeps (hv : v.Calm) (dev : HidDevice) (data : Bytes) :
    Keeps (hidWrite dev data) v (fun _ v' => v' = v) := by
  refine Program.Keeps.expect_bind (fun handle _ => ?_) (fun _ => trivial)
  refine Program.Keeps.expect_bind (fun reportNumber _ => ?_) (fun _ => trivial)
  dsimp only
  split
  · exact quiet_keeps (fun _ _ => rfl) hv (fun _ => rfl)
  · exact quiet_keeps (fun _ _ => rfl) hv (fun _ => rfl)

/-- A transfer is freed that is there. -/
theorem freeTransfer_keeps (hv : v.Calm) {addr : Nat} {transfers : Multiset Nat}
    (htransfers : v.transfers = addr ::ₘ transfers) {f : Unit → Usb β} {Q : β → Process → Prop}
    (hf : Keeps (f ()) { v with transfers } Q) : Keeps (freeTransfer addr >>= f) v Q := by
  refine .perform (fun _ _ => ⟨_, ?_, hf⟩)
  simp [terms, watch, htransfers, settle_of_calm hv]

theorem hidClose_keeps (hv : v.Calm) (dev : HidDevice) :
    Keeps (hidClose dev) (v.take (some dev)) (fun _ v' => v' = v) := by
  refine Program.Keeps.expect_bind (fun handle _ => ?_) (fun _ => trivial)
  refine Program.Keeps.expect_bind (fun transfer htransfer => ?_) (fun _ => trivial)
  have htaken : v.take (some dev) = (({ v with transfers := transfer.addr ::ₘ v.transfers } :
      Process).hold {dev.addr}).hold ((transfer.buffer.toList : Multiset Nat) + 0) := by
    simp only [take, htransfer, forget, hold, Forgotten.transfer, Option.bind_some, Option.map_some,
      Option.toList_some, Multiset.coe_singleton, Multiset.singleton_add, zero_add, add_zero,
      Process.mk.injEq, Belongings.mk.injEq, and_true]
    rw [Multiset.add_cons]
  have hmade : ({ v with transfers := transfer.addr ::ₘ v.transfers } : Process).Calm := hv
  rw [htaken]
  refine quiet_keeps (fun _ _ => rfl) ((hmade.hold _).hold _) (fun _ => ?_)
  apply freeIfAny_keeps (hmade.hold _)
  rw [hold_zero]
  refine freeTransfer_keeps (hmade.hold _) (show _ = transfer.addr ::ₘ v.transfers from rfl) ?_
  refine quiet_keeps (fun _ _ => rfl) (hv.hold _) (fun _ => ?_)
  refine quiet_keeps (fun _ _ => rfl) (hv.hold _) (fun _ => ?_)
  exact free_keeps (f := pure) hv (by simp) (by simp [Program.Keeps])

/-- A process that has what is counted above, and of its own what it forgot. -/
def plain (w : Belongings) (usbContext : Bool) : Process :=
  ⟨w, 0, 0, usbContext.toNat, none, 0⟩

/-- Nothing is lost as long as libusb can be set up. -/
theorem lost_of_setUp {es : List UsbHappening} {v v' : Process}
    (h : es.foldlM watch v = some v')
    (hinit : ∀ res : Int, ⟨.libusbInit, res⟩ ∈ es → res = 0) : v'.lost = v.lost := by
  induction es generalizing v with
  | nil =>
    obtain rfl := Option.some.inj h
    rfl
  | cons e es ih =>
    rw [List.foldlM_cons] at h
    obtain ⟨u, he, hes⟩ := Option.bind_eq_some_iff.mp h
    rw [ih hes (fun res hres => hinit res (List.mem_cons_of_mem _ hres))]
    obtain ⟨c, r⟩ := e
    cases c with
    | libusbInit =>
      obtain rfl := Option.some.inj he
      rw [hinit r List.mem_cons_self]
      rfl
    | calloc record =>
      cases record with
      | hidDevice =>
        obtain rfl := Option.some.inj he
        rfl
      | deviceInfo =>
        obtain rfl := Option.some.inj he
        rfl
    | iconvClose ic | freeTransfer addr =>
      simp only [watch] at he
      split at he
      · obtain rfl := Option.some.inj he
        rfl
      · cases he
    | plain c =>
      obtain ⟨belongings, -, rfl⟩ := Option.map_eq_some_iff.mp he
      rfl
    | _ =>
      obtain rfl := Option.some.inj he
      rfl

end Process

end Libfcd.Proofs
