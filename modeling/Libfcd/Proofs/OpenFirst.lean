import Libfcd.Proofs.OpenPath

namespace Libfcd.Proofs
open Interaction Memory Hidapi Devices

/-- A record with the numbers that `hid_open` is after. -/
def Numbered (vendorId productId : UInt16) (d : DeviceInfo) : Prop :=
  d.vendorId = vendorId ∧ d.productId = productId

/-- How `hid_open` comes through the records: to the end without one that matches, to
the first that matches, or to one without a serial number to compare. -/
inductive Search (vendorId productId : UInt16) (serialNumber : Option (List UInt32)) :
    List DeviceInfo → Option (Option DevPath) → Prop where
  | missed {infos : List DeviceInfo} (hnone : ∀ d ∈ infos,
      Numbered vendorId productId d → serialMatches serialNumber d = some false) :
      Search vendorId productId serialNumber infos (some none)
  | found (front : List DeviceInfo) (d : DeviceInfo) (back : List DeviceInfo)
      (hfront : ∀ d ∈ front, Numbered vendorId productId d →
        serialMatches serialNumber d = some false)
      (hd : Numbered vendorId productId d) (hserial : serialMatches serialNumber d = some true) :
      Search vendorId productId serialNumber (front ++ d :: back) (some d.path)
  | unreadable (front : List DeviceInfo) (d : DeviceInfo) (back : List DeviceInfo)
      (hfront : ∀ d ∈ front, Numbered vendorId productId d →
        serialMatches serialNumber d = some false)
      (hd : Numbered vendorId productId d) (hwanted : serialNumber.isSome)
      (hserial : d.serialNumber = none) :
      Search vendorId productId serialNumber (front ++ d :: back) none

theorem Search.behind {vendorId productId : UInt16} {serialNumber : Option (List UInt32)}
    {d : DeviceInfo} (hd : Numbered vendorId productId d →
      serialMatches serialNumber d = some false) {infos : List DeviceInfo}
    {r : Option (Option DevPath)} (h : Search vendorId productId serialNumber infos r) :
    Search vendorId productId serialNumber (d :: infos) r := by
  cases h with
  | missed hnone => exact .missed (List.forall_mem_cons.mpr ⟨hd, hnone⟩)
  | found front e back hfront he hserial =>
    exact .found (d :: front) e back (List.forall_mem_cons.mpr ⟨hd, hfront⟩) he hserial
  | unreadable front e back hfront he hwanted hserial =>
    exact .unreadable (d :: front) e back (List.forall_mem_cons.mpr ⟨hd, hfront⟩) he hwanted hserial

theorem pathToOpen_searches (vendorId productId : UInt16) (serialNumber : Option (List UInt32))
    (infos : List DeviceInfo) : Search vendorId productId serialNumber infos
      (pathToOpen vendorId productId serialNumber infos) := by
  induction infos with
  | nil => exact .missed (by simp)
  | cons d next ih =>
    rw [pathToOpen]
    split
    · rename_i hd
      cases hmatch : serialMatches serialNumber d with
      | none =>
        cases serialNumber with
        | none => cases hmatch
        | some serial =>
          exact .unreadable [] d next (by simp) hd rfl (Option.map_eq_none_iff.mp hmatch)
      | some matched =>
        cases matched with
        | true => exact .found [] d next (by simp) hd hmatch
        | false => exact ih.behind (fun _ => hmatch)
    · rename_i hd
      exact ih.behind (fun h => absurd h hd)

/-- Records that do not match are passed over. -/
theorem pathToOpen_behind {vendorId productId : UInt16} {serialNumber : Option (List UInt32)}
    {front : List DeviceInfo} (hfront : ∀ d ∈ front, Numbered vendorId productId d →
      serialMatches serialNumber d = some false) (rest : List DeviceInfo) :
    pathToOpen vendorId productId serialNumber (front ++ rest) =
      pathToOpen vendorId productId serialNumber rest := by
  induction front with
  | nil => rfl
  | cons d front ih =>
    rw [List.cons_append, pathToOpen, ih (fun e he => hfront e (by simp [he]))]
    split
    · rename_i hd
      rw [hfront d (by simp) hd]
      rfl
    · rfl

/-- There is one way through the records. -/
theorem Search.eq {vendorId productId : UInt16} {serialNumber : Option (List UInt32)}
    {infos : List DeviceInfo} {r : Option (Option DevPath)}
    (h : Search vendorId productId serialNumber infos r) :
    pathToOpen vendorId productId serialNumber infos = r := by
  cases h with
  | missed hnone =>
    rw [← List.append_nil infos, pathToOpen_behind hnone]
    rfl
  | found front d back hfront hd hserial =>
    rw [pathToOpen_behind hfront, pathToOpen, if_pos (show d.vendorId = _ ∧ _ from hd), hserial]
    rfl
  | unreadable front d back hfront hd hwanted hserial =>
    obtain ⟨serial, rfl⟩ := Option.isSome_iff_exists.mp hwanted
    rw [pathToOpen_behind hfront, pathToOpen, if_pos (show d.vendorId = _ ∧ _ from hd),
      serialMatches, hserial]
    rfl

/-- A path that was found is that of a record. -/
theorem Search.mem {vendorId productId : UInt16} {serialNumber : Option (List UInt32)}
    {infos : List DeviceInfo} {r : Option (Option DevPath)} {path : DevPath}
    (h : Search vendorId productId serialNumber infos r) (hr : r = some (some path)) :
    ∃ info ∈ infos, info.path = some path := by
  cases h with
  | missed hnone => cases hr
  | found front d back hfront hd hserial => exact ⟨d, by simp, Option.some.inj hr⟩
  | unreadable front d back hfront hd hwanted hserial => cases hr

/-- Freeing a list comes to an end. -/
theorem hidFreeEnumeration_ends {σ : Type} (h : UsbHost σ) (infos : List DeviceInfo) (s : σ) :
    ∃ t, (hidFreeEnumeration infos).run h s = some ((), t) := by
  have hif : ∀ (block : Option Nat) (s : σ), ∃ t, (freeIfAny block).run h s = some ((), t) := by
    intro block s
    cases block with
    | none => exact ⟨s, rfl⟩
    | some block => exact ⟨_, rfl⟩
  induction infos generalizing s with
  | nil => exact ⟨s, rfl⟩
  | cons d next ih =>
    obtain ⟨s1, h₁⟩ := hif (d.path.map DevPath.addr) s
    obtain ⟨s2, h₂⟩ := hif (d.serialNumber.map WString.addr) s1
    obtain ⟨s3, h₃⟩ := hif (d.manufacturerString.map WString.addr) s2
    obtain ⟨s4, h₄⟩ := hif (d.productString.map WString.addr) s3
    obtain ⟨t, h₅⟩ := ih (h (.plain (.free d.addr)) s4).2
    refine ⟨t, ?_⟩
    rw [hidFreeEnumeration, Program.run_bind_of_run h₁, Program.run_bind_of_run h₂,
      Program.run_bind_of_run h₃, Program.run_bind_of_run h₄]
    exact h₅

section
variable {σ : Type} {h : UsbHost σ} {host : Endian} {vendorId productId : UInt16}
  {serialNumber : Option (List UInt32)} {usbContext usbContext' : Bool} {infos : List DeviceInfo}
  {s t : σ}

theorem hidOpen_unreadable
    (hlist : (hidEnumerate host vendorId productId usbContext).run h s =
      some ((infos, usbContext'), t))
    (hwrong : pathToOpen vendorId productId serialNumber infos = none) :
    (hidOpen host vendorId productId serialNumber usbContext).run h s = none := by
  change Program.run h (hidEnumerate host vendorId productId usbContext >>= _) s = none
  rw [Program.run_bind_of_run hlist]
  simp only [hwrong]
  rfl

theorem hidOpen_missed
    (hlist : (hidEnumerate host vendorId productId usbContext).run h s =
      some ((infos, usbContext'), t))
    (hnone : pathToOpen vendorId productId serialNumber infos = some none) :
    ∃ u, (hidOpen host vendorId productId serialNumber usbContext).run h s =
      some ((none, usbContext'), u) := by
  obtain ⟨u, hfree⟩ := hidFreeEnumeration_ends h infos t
  refine ⟨u, ?_⟩
  change Program.run h (hidEnumerate host vendorId productId usbContext >>= _) s = _
  rw [Program.run_bind_of_run hlist]
  simp only [hnone, Program.expect_some, Program.done_bind, pure_bind]
  rw [Program.run_bind_of_run hfree]
  rfl

/-- The list is freed once the device is open, or is not. -/
theorem hidOpen_found
    (hlist : (hidEnumerate host vendorId productId usbContext).run h s =
      some ((infos, usbContext'), t)) {path : DevPath}
    (hpath : pathToOpen vendorId productId serialNumber infos = some (some path))
    {r : Option HidDevice × Bool} {u : σ}
    (hopen : (hidOpenPath path.text usbContext').run h t = some (r, u)) :
    ∃ v, (hidOpen host vendorId productId serialNumber usbContext).run h s = some (r, v) := by
  obtain ⟨v, hfree⟩ := hidFreeEnumeration_ends h infos u
  refine ⟨v, ?_⟩
  change Program.run h (hidEnumerate host vendorId productId usbContext >>= _) s = _
  rw [Program.run_bind_of_run hlist]
  simp only [hpath, Program.expect_some, Program.done_bind]
  rw [Program.run_bind_of_run hopen, Program.run_bind_of_run hfree]
  rfl

end

/-- `hid_open` looks for the first record with the vendor, the product and the serial
number it was given. It goes wrong exactly when it comes to a record without a serial
number that it has to compare. Otherwise it comes to an end: without a device if no
record matched, or with what the path of the first that matched leads to, which is the
altsetting of that record as long as libusb shows its device as before. -/
theorem hidOpen_opens {σ : Type} (h : UsbHost σ) (hh : ∀ c s, Openable ⟨c, (h c s).1⟩) (s : σ)
    (host : Endian) (vendorId productId : UInt16) (serialNumber : Option (List UInt32))
    (usbContext : Bool) :
    let p := hidOpen host vendorId productId serialNumber usbContext
    ∃ infos usbContext' t listing found,
      (hidEnumerate host vendorId productId usbContext).run h s =
        some ((infos, usbContext'), t) ∧
      ((hidEnumerate host vendorId productId usbContext).events h s).foldlM View.watch .empty =
        some listing ∧
      Enumerated vendorId productId usbContext listing (infos, usbContext') ∧
      Search vendorId productId serialNumber infos found ∧
      (found = none ↔ p.run h s = none) ∧
      (found = some none → ∃ u, p.run h s = some ((none, usbContext'), u)) ∧
      ∀ path, found = some (some path) → ∃ dev usbContext'' u view,
        p.run h s = some ((dev, usbContext''), u) ∧
        ((hidOpenPath path.text usbContext').events h t).foldlM View.watch .empty = some view ∧
        Opened path.text usbContext' (.idle []) dev view ∧ Walked usbContext' view ∧
        ∀ info ∈ infos, info.path = some path → ∃ x : Seen × InterfaceDescriptor,
          Describes info x ∧ x.1 ∈ listing.seen ∧ x ∈ x.1.listed vendorId productId ∧
          Leads x view dev := by
  intro p
  obtain ⟨⟨infos, usbContext'⟩, t, listing, hlist, hfold, -, hlisted⟩ :=
    hidEnumerate_ends (fun c s => (hh c s).1) s host vendorId productId usbContext
  have hfound : ∀ path, pathToOpen vendorId productId serialNumber infos = some (some path) →
      ∃ dev usbContext'' u view, p.run h s = some ((dev, usbContext''), u) ∧
        ((hidOpenPath path.text usbContext').events h t).foldlM View.watch .empty = some view ∧
        Opened path.text usbContext' (.idle []) dev view ∧ Scattered view.seen := by
    intro path hpath
    obtain ⟨dev, usbContext'', u, view, hopen, hfold', hopened, hscattered⟩ :=
      hidOpenPath_ends hh t path.text usbContext'
    obtain ⟨v, hends⟩ := hidOpen_found hlist hpath hopen
    exact ⟨dev, usbContext'', v, view, hends, hfold', hopened, hscattered⟩
  have hsearch := pathToOpen_searches vendorId productId serialNumber infos
  refine ⟨infos, usbContext', t, listing, _, hlist, hfold, hlisted, hsearch,
    ⟨hidOpen_unreadable hlist, fun hstuck => ?_⟩, hidOpen_missed hlist, fun path hpath => ?_⟩
  · cases hpath : pathToOpen vendorId productId serialNumber infos with
    | none => rfl
    | some path =>
      cases path with
      | none =>
        obtain ⟨u, hends⟩ := hidOpen_missed hlist hpath
        rw [hstuck] at hends
        cases hends
      | some path =>
        obtain ⟨dev, usbContext'', u, view, hends, -⟩ := hfound path hpath
        rw [hstuck] at hends
        cases hends
  · obtain ⟨dev, usbContext'', u, view, hends, hfold', hopened, hscattered⟩ := hfound path hpath
    have hsetUp : ∀ info ∈ infos, usbContext' = true := by
      intro info hinfo
      cases hlisted with
      | notSetUp => cases hinfo
      | noList => rfl
      | found => rfl
    refine ⟨dev, usbContext'', u, view, hends, hfold', hopened, ?_, ?_⟩
    · obtain ⟨info, hinfo, -⟩ := hsearch.mem hpath
      obtain rfl := hsetUp info hinfo
      exact hopened.walked_of_setUp
    · intro info hinfo hinfoPath
      obtain ⟨x, hdescribes, hseen, hx⟩ := hlisted.describes hinfo
      obtain rfl := hsetUp info hinfo
      have hto : path.text = x.1.pathTo x.2 := by
        simpa [hinfoPath] using hdescribes.path
      rw [hto] at hopened
      exact ⟨x, hdescribes, hseen, hx, hopened.leads hx hscattered hopened.walked_of_setUp⟩

/-- The first dongle, and what it is opened as. -/
theorem hidOpen_opens_dongle : ∃ (x : Seen × InterfaceDescriptor) (view : View),
    (hidOpen .little 0x04d8 0xfb56 none false).run (Bus.host (Boot.serve id)) ⟨oneBlock, []⟩ =
      some ((some dongleDevice, true), ⟨oneBlock, []⟩) ∧
    Search 0x04d8 0xfb56 none [dongleInfo ⟨0, "0001:0004:02"⟩] (some (some ⟨0, "0001:0004:02"⟩)) ∧
    Describes (dongleInfo ⟨0, "0001:0004:02"⟩) x ∧
    Opened "0001:0004:02" true (.idle []) (some dongleDevice) view ∧
    Leads x view (some dongleDevice) := by
  have hdevice : (hidOpen .little 0x04d8 0xfb56 none false).run (Bus.host (Boot.serve id))
    ⟨oneBlock, []⟩ = some ((some dongleDevice, true), ⟨oneBlock, []⟩) := rfl
  obtain ⟨infos, usbContext', t, listing, found, hlist, -, -, hsearch, -, -, hopens⟩ :=
    hidOpen_opens (Bus.host (Boot.serve id)) (Bus.openable _) ⟨oneBlock, []⟩ .little 0x04d8 0xfb56
      none false
  obtain ⟨⟨rfl, rfl⟩, -⟩ := Prod.mk.inj (Option.some.inj (dongle_listed.symm.trans hlist)) |>.imp
    Prod.mk.inj id
  obtain rfl : some (some ⟨0, "0001:0004:02"⟩) = found := hsearch.eq
  obtain ⟨dev, usbContext'', u, view, hrun, -, hopened, -, hleads⟩ := hopens _ rfl
  obtain ⟨⟨rfl, -⟩, -⟩ := Prod.mk.inj (Option.some.inj (hdevice.symm.trans hrun)) |>.imp
    Prod.mk.inj id
  obtain ⟨x, hdescribes, -, -, hleads⟩ := hleads _ (List.mem_singleton.mpr rfl) rfl
  exact ⟨x, view, hdevice, hsearch, hdescribes, hopened, hleads⟩

/-- The dongle has no serial number, so asking for one goes wrong. -/
example : (hidOpen .little 0x04d8 0xfb56 (some [49]) false).run (Bus.host (Boot.serve id))
    ⟨oneBlock, []⟩ = none := rfl

end Libfcd.Proofs
