import Libfcd.Devices.Bus

namespace Libfcd.Proofs
open Interaction Memory Hidapi Devices

variable {grants : UsbHappening → Prop} {lenient : Prop} {w : View} {handle : UsbHandle}

/-- Nothing has changed but whether something was refused. -/
structure Unmoved (w w' : View) : Prop where
  books : w'.books = w.books
  setUp : w'.setUp = w.setUp
  asked : w'.asked = w.asked
  seen : w'.seen = w.seen

namespace Strings

variable (hG : ∀ e, grants e → lenient ∨ Provided e) (hw : w.books.newest handle none)
include hG hw

theorem readString (index : UInt8) (lang : UInt16) (length : Nat) :
    Program.Keeps (usbTerms grants lenient) (Hidapi.readString handle index lang length) w
      (fun r w' => w' = w ∧ ∀ buf : Bytes, r = some buf → lenient ∨ 2 ≤ buf.length) := by
  refine Program.Keeps.perform (fun r hr => ⟨w, View.require_pos hw w, ?_⟩)
  cases r with
  | none => exact ⟨rfl, fun buf hbuf => nomatch hbuf⟩
  | some buf =>
    have hbuf : lenient ∨ 2 ≤ buf.length ∧ buf.length ≤ length :=
      (hG _ hr).imp_right (fun h => h buf rfl)
    refine Program.Keeps.expect (fun o ho => ?_) (fun ho => ?_)
    · obtain ⟨-, ho⟩ := Option.ite_none_right_eq_some.mp ho
      obtain rfl := Option.some.inj ho
      refine ⟨rfl, fun b hb => ?_⟩
      obtain rfl := Option.some.inj hb
      exact hbuf.imp_right (·.1)
    · have hlen : ¬ buf.length ≤ length := by simpa using ho
      exact hbuf.resolve_right (fun h => hlen h.2)

theorem isLanguageSupported (host : Endian) (lang : UInt16) :
    Program.Keeps (usbTerms grants lenient) (Hidapi.isLanguageSupported host handle lang) w
      (fun _ w' => w' = w) := by
  refine (readString hG hw 0 0 64).bind (fun r w' hr => ?_)
  obtain ⟨rfl, -⟩ := hr
  cases r with
  | none => exact rfl
  | some buf => exact rfl

theorem getFirstLanguage (host : Endian) :
    Program.Keeps (usbTerms grants lenient) (Hidapi.getFirstLanguage host handle) w
      (fun _ w' => w' = w) := by
  refine (readString hG hw 0 0 64).bind (fun r w' hr => ?_)
  obtain ⟨rfl, -⟩ := hr
  cases r with
  | none => exact rfl
  | some buf => exact rfl

theorem languageFor (host : Endian) :
    Program.Keeps (usbTerms grants lenient) (Hidapi.languageFor host handle) w
      (fun _ w' => w' = w) := by
  refine Program.Keeps.perform (fun locale _ => ⟨w, rfl, ?_⟩)
  refine (isLanguageSupported hG hw host locale).bind (fun supported w' hw' => ?_)
  subst hw'
  cases supported with
  | true => exact rfl
  | false => exact getFirstLanguage hG hw host

theorem getUsbString (host : Endian) (idx : UInt8) :
    Program.Keeps (usbTerms grants lenient) (Hidapi.getUsbString host handle idx) w
      (fun _ w' => w' = w) := by
  refine (languageFor hG hw host).bind (fun lang w' hw' => ?_)
  subst hw'
  refine (readString hG hw idx lang 512).bind (fun r u hr => ?_)
  obtain ⟨rfl, hlen⟩ := hr
  cases r with
  | none => exact rfl
  | some buf =>
    refine Program.Keeps.perform (fun ic _ => ⟨u, rfl, ?_⟩)
    cases ic with
    | none => exact rfl
    | some ic =>
      have hbytes : Program.Keeps (usbTerms grants lenient)
          (Program.expect (if 2 ≤ buf.length then some (buf.drop 2) else none)) u
          (fun _ w' => w' = u) := by
        refine .expect (fun _ _ => rfl) (fun hnone => ?_)
        have hshort : ¬ 2 ≤ buf.length := by simpa using hnone
        exact (hlen buf rfl).resolve_right hshort
      refine hbytes.bind (fun inbytes w' hw' => ?_)
      subst hw'
      split
      · exact fun _ _ => ⟨w', rfl, rfl⟩
      · exact fun _ _ => ⟨w', rfl, fun _ _ => ⟨w', rfl, rfl⟩⟩

theorem stringAt (host : Endian) (index : UInt8) :
    Program.Keeps (usbTerms grants lenient) (Hidapi.stringAt host handle index) w
      (fun _ w' => w' = w) := by
  unfold Hidapi.stringAt
  split
  · exact getUsbString hG hw host index
  · exact rfl

end Strings

/-- All altsettings of a device, of its first configuration if none is active. -/
def Seen.shown (s : Seen) : List InterfaceDescriptor :=
  ((s.active.join <|> s.first.join).getD []).flatten

/-- The altsettings of a device that a query is after. -/
def Seen.listed (vendorId productId : UInt16) (s : Seen) : List (Seen × InterfaceDescriptor) :=
  (s.shown.filter (matchesQuery vendorId productId s.desc)).map (s, ·)

/-- What `make_path` prints for an altsetting of a device. -/
def Seen.pathTo (s : Seen) (intfDesc : InterfaceDescriptor) : String :=
  pathOf s.dev.busNumber s.dev.deviceAddress intfDesc.bInterfaceNumber

/-- Libusb was asked for the active configuration, and for the first where there is
none. -/
def Seen.Examined (s : Seen) : Prop :=
  s.active.isSome ∧ (s.active = some none → s.first.isSome)

/-- A record is about an altsetting, with the path that leads there. -/
structure Describes (info : DeviceInfo) (x : Seen × InterfaceDescriptor) : Prop where
  vendorId : info.vendorId = x.1.desc.idVendor
  productId : info.productId = x.1.desc.idProduct
  releaseNumber : info.releaseNumber = x.1.desc.bcdDevice
  interfaceNumber : info.interfaceNumber = x.2.bInterfaceNumber
  path : info.path.map DevPath.text = some (x.1.pathTo x.2)

/-- New records at the end of a list, one for each of these altsettings. -/
def Adds (lenient : Prop) (infos : List DeviceInfo) (xs : List (Seen × InterfaceDescriptor))
    (infos' : List DeviceInfo) : Prop :=
  lenient ∨ ∃ new, infos' = infos ++ new ∧ List.Forall₂ Describes new xs

theorem adds_nil (infos : List DeviceInfo) : Adds lenient infos [] infos :=
  .inr ⟨[], (List.append_nil infos).symm, .nil⟩

theorem Adds.append {infos infos' infos'' : List DeviceInfo}
    {xs ys : List (Seen × InterfaceDescriptor)} (h : Adds lenient infos xs infos')
    (h' : Adds lenient infos' ys infos'') : Adds lenient infos (xs ++ ys) infos'' := by
  obtain hlenient | ⟨new, rfl, hnew⟩ := h
  · exact .inl hlenient
  obtain hlenient | ⟨new', rfl, hnew'⟩ := h'
  · exact .inl hlenient
  exact .inr ⟨new ++ new', List.append_assoc .., List.rel_append hnew hnew'⟩

theorem Unmoved.refl (w : View) : Unmoved w w := ⟨rfl, rfl, rfl, rfl⟩

theorem Unmoved.trans {u v : View} (h : Unmoved w u) (h' : Unmoved u v) : Unmoved w v :=
  ⟨h'.books.trans h.books, h'.setUp.trans h.setUp, h'.asked.trans h.asked, h'.seen.trans h.seen⟩

/-- A loop whose rounds each add their own records. -/
theorem foldlM_adds {γ : Type} {T : Terms UsbCall UsbCall.Answer View}
    {body : List DeviceInfo → γ → Usb (List DeviceInfo)}
    {g : γ → List (Seen × InterfaceDescriptor)} {w : View}
    (hbody : ∀ x infos u, Unmoved w u →
      Program.Keeps T (body infos x) u
        (fun infos' u' => Unmoved u u' ∧ Adds lenient infos (g x) infos'))
    (xs : List γ) (infos : List DeviceInfo) {u : View} (hu : Unmoved w u) :
    Program.Keeps T (xs.foldlM body infos) u
      (fun infos' u' => Unmoved u u' ∧ Adds lenient infos (xs.flatMap g) infos') := by
  induction xs generalizing infos u with
  | nil => exact ⟨.refl u, adds_nil infos⟩
  | cons x xs ih =>
    rw [List.foldlM_cons]
    refine (hbody x infos u hu).bind (fun infos' u' h => ?_)
    exact (ih infos' (hu.trans h.1)).mono (fun _ _ h' => ⟨h.1.trans h'.1, h.2.append h'.2⟩)

/-- A selection, one entry at a time. -/
theorem select_eq {γ δ : Type} (p : γ → Bool) (f : γ → δ) (xs : List γ) :
    (xs.filter p).map f = xs.flatMap (fun a => ([a].filter p).map f) := by
  induction xs with
  | nil => rfl
  | cons x xs ih =>
    have hx : x :: xs = [x] ++ xs := rfl
    rw [hx, List.filter_append, List.map_append, ih, List.flatMap_append, List.flatMap_singleton]

theorem select_flatten {γ δ : Type} (p : γ → Bool) (f : γ → δ) (xss : List (List γ)) :
    (xss.flatten.filter p).map f =
      xss.flatMap (fun xs => xs.flatMap (fun a => ([a].filter p).map f)) := by
  rw [List.filter_flatten, List.map_flatten, List.map_map, ← List.flatMap_def]
  exact congrArg (List.flatMap · xss) (funext (select_eq p f))

section Enumerate

variable (hG : ∀ e, grants e → lenient ∨ Provided e) (host : Endian) (vendorId productId : UInt16)
include hG

theorem fillInfo_keeps {dev : UsbDevice} (hdev : w.books.knows dev) (s : Seen) (hs : s.dev = dev)
    (intfDesc : InterfaceDescriptor) : Program.Keeps (usbTerms grants lenient)
      (fillInfo host dev s.desc intfDesc.bInterfaceNumber) w
      (fun info w' => Unmoved w w' ∧ (lenient ∨ Describes info (s, intfDesc))) := by
  subst hs
  refine Program.Keeps.perform (fun tmp htmp => ⟨w, rfl, ?_⟩)
  have haddr : Program.Keeps (usbTerms grants lenient) (Program.expect tmp) w
      (fun _ w' => w' = w) :=
    .expect (fun _ _ => rfl) (fun hnone => (hG _ htmp).resolve_right (fun h => h hnone))
  refine haddr.bind (fun tmp w' hw' => ?_)
  subst hw'
  refine Program.Keeps.perform (fun (copy : Option Nat) hcopy => ⟨w', rfl, ?_⟩)
  have hpath : lenient ∨ (copy.map (DevPath.mk · (s.pathTo intfDesc))).map DevPath.text =
      some (s.pathTo intfDesc) := by
    refine (hG _ hcopy).imp_right (fun hsome => ?_)
    obtain ⟨block, rfl⟩ := Option.ne_none_iff_exists'.mp hsome
    rfl
  refine Program.Keeps.perform (fun opened _ => ?_)
  cases opened with
  | none =>
    refine ⟨_, View.require_pos hdev _, ⟨rfl, rfl, rfl, rfl⟩, ?_⟩
    exact hpath.imp_right (fun h => ⟨rfl, rfl, rfl, rfl, h⟩)
  | some handle =>
    refine ⟨_, View.require_pos hdev _, ?_⟩
    have hnew : ∀ u : View, u.books = { w'.books with
        handles := ⟨handle, s.dev, none, false, none⟩ :: w'.books.handles } →
        u.books.newest handle none := by
      intro u hu
      simp [hu, Books.newest]
    refine (Strings.stringAt hG (hnew _ rfl) host _).bind (fun serialNumber u hu => ?_)
    subst hu
    refine (Strings.stringAt hG (hnew _ rfl) host _).bind (fun manufacturer u hu => ?_)
    subst hu
    refine (Strings.stringAt hG (hnew _ rfl) host _).bind (fun product u hu => ?_)
    subst hu
    refine fun _ _ => ⟨_, View.require_pos (hnew _ rfl) _, ⟨rfl, rfl, rfl, rfl⟩, ?_⟩
    exact hpath.imp_right (fun h => ⟨rfl, rfl, rfl, rfl, h⟩)

theorem listAltsetting_keeps {dev : UsbDevice} (hdev : w.books.knows dev) (s : Seen)
    (hs : s.dev = dev) (intfDesc : InterfaceDescriptor) (infos : List DeviceInfo) :
    Program.Keeps (usbTerms grants lenient)
      (listAltsetting host vendorId productId dev s.desc infos intfDesc) w
      (fun infos' w' => Unmoved w w' ∧ Adds lenient infos
        (([intfDesc].filter (matchesQuery vendorId productId s.desc)).map (s, ·)) infos') := by
  unfold listAltsetting
  split
  · rename_i hmatch
    refine (fillInfo_keeps hG host hdev s hs intfDesc).bind (fun info w' h => ⟨h.1, ?_⟩)
    rw [List.filter_cons_of_pos hmatch]
    exact h.2.imp_right (fun hinfo => ⟨[info], rfl, .cons hinfo .nil⟩)
  · rename_i hmatch
    rw [List.filter_cons_of_neg hmatch]
    exact ⟨.refl w, adds_nil infos⟩

/-- The two inner loops, over what is shown of a device. -/
theorem listInterfaces_keeps {dev : UsbDevice} (hdev : w.books.knows dev) (s : Seen)
    (hs : s.dev = dev) (interfaces : List (List InterfaceDescriptor)) (infos : List DeviceInfo) :
    Program.Keeps (usbTerms grants lenient)
      (interfaces.foldlM (fun infos intf =>
        intf.foldlM (listAltsetting host vendorId productId dev s.desc) infos) infos) w
      (fun infos' w' => Unmoved w w' ∧ Adds lenient infos
        ((interfaces.flatten.filter (matchesQuery vendorId productId s.desc)).map (s, ·))
        infos') := by
  rw [select_flatten]
  refine foldlM_adds (fun intf infos u hu => ?_) interfaces infos (.refl w)
  refine foldlM_adds (fun a infos v hv => ?_) intf infos (.refl u)
  have hknows : v.books.knows dev := by rwa [hv.books, hu.books]
  exact listAltsetting_keeps hG host vendorId productId hknows s hs a infos

omit hG in
/-- The configuration that is shown of a device is held until it is given back. -/
theorem anyConfigDescriptor_keeps {books : Books} {setUp : Option Int}
    {asked : Option (Option UsbList)} {seen : List Seen} {refused : Bool} {dev : UsbDevice}
    (hdev : books.knows dev) (desc : DeviceDescriptor) :
    Program.Keeps (usbTerms grants lenient) (anyConfigDescriptor dev)
      ⟨books, setUp, asked, seen ++ [⟨dev, desc, none, none⟩], refused⟩
      (fun conf w' => ∃ s : Seen, s.dev = dev ∧ s.desc = desc ∧ s.Examined ∧
        (s.active.join <|> s.first.join) = conf.map ConfigDescriptor.interface ∧
        w' = ⟨{ books with configs := conf.toList ++ books.configs }, setUp, asked, seen ++ [s],
          refused⟩) := by
  refine Program.Keeps.perform (fun active _ => ⟨_, View.require_pos hdev _, ?_⟩)
  rw [View.configured_append]
  cases active with
  | some conf =>
    exact ⟨⟨dev, desc, some (some conf.interface), none⟩, rfl, rfl, ⟨rfl, nofun⟩, rfl, rfl⟩
  | none =>
    intro first _
    refine ⟨_, View.require_pos hdev _, ?_⟩
    rw [View.configured_append]
    exact ⟨⟨dev, desc, some none, some (first.map ConfigDescriptor.interface)⟩, rfl, rfl,
      ⟨rfl, fun _ => rfl⟩, rfl, rfl⟩

theorem listDevice_keeps {dev : UsbDevice} (hdev : w.books.knows dev) (infos : List DeviceInfo) :
    Program.Keeps (usbTerms grants lenient) (listDevice host vendorId productId infos dev) w
      (fun infos' w' => ∃ s : Seen, s.dev = dev ∧ s.Examined ∧
        w' = { w with seen := w.seen ++ [s], refused := w'.refused } ∧
        Adds lenient infos (s.listed vendorId productId) infos') := by
  refine Program.Keeps.perform (fun desc _ => ⟨_, View.require_pos hdev _, ?_⟩)
  refine (anyConfigDescriptor_keeps hdev desc).bind (fun conf w' h => ?_)
  obtain ⟨s, hs, rfl, hexamined, hconf, rfl⟩ := h
  cases conf with
  | none =>
    have hshown : s.shown = [] := by simp [Seen.shown, hconf]
    refine ⟨s, hs, hexamined, rfl, ?_⟩
    rw [Seen.listed, hshown]
    exact adds_nil infos
  | some conf =>
    have hshown : s.shown = conf.interface.flatten := by simp [Seen.shown, hconf]
    refine (listInterfaces_keeps
      (w := ⟨{ w.books with configs := conf :: w.books.configs }, w.setUp, w.asked,
        w.seen ++ [s], w.refused⟩)
      hG host vendorId productId hdev s hs conf.interface infos).bind (fun infos' u h => ?_)
    obtain ⟨⟨hbooks, hsetUp, hasked, hseen⟩, hadds⟩ := h
    have hhead : u.books.configs.head? = some conf := by rw [hbooks]; rfl
    refine fun _ _ => ⟨_, View.require_pos hhead _, s, hs, hexamined, ?_, ?_⟩
    · simp [hbooks, hsetUp, hasked, hseen]
    · rwa [Seen.listed, hshown]

/-- The loop over devices. -/
theorem listDevices_keeps {devs : List UsbDevice} (hdevs : ∀ d ∈ devs, w.books.knows d)
    (infos : List DeviceInfo) :
    Program.Keeps (usbTerms grants lenient)
      (devs.foldlM (listDevice host vendorId productId) infos) w
      (fun infos' w' => ∃ ss : List Seen, ss.map Seen.dev = devs ∧ (∀ s ∈ ss, s.Examined) ∧
        w' = { w with seen := w.seen ++ ss, refused := w'.refused } ∧
        Adds lenient infos (ss.flatMap (Seen.listed vendorId productId)) infos') := by
  induction devs generalizing w infos with
  | nil => exact ⟨[], rfl, by simp, by simp, adds_nil infos⟩
  | cons dev devs ih =>
    rw [List.foldlM_cons]
    refine (listDevice_keeps hG host vendorId productId (hdevs dev (by simp)) infos).bind
      (fun infos' u h => ?_)
    obtain ⟨s, rfl, hexamined, hu, hadds⟩ := h
    have hknows : ∀ d ∈ devs, u.books.knows d := by
      intro d hd
      rw [hu]
      exact hdevs d (by simp [hd])
    refine (ih hknows infos').mono ?_
    rintro infos'' w' ⟨ss, rfl, hall, hw', hadds'⟩
    refine ⟨s :: ss, rfl, List.forall_mem_cons.mpr ⟨hexamined, hall⟩, ?_, ?_⟩
    · rw [hw', hu]
      simp
    · rw [List.flatMap_cons]
      exact hadds.append hadds'

/-- What `hid_init` finds out. -/
inductive SetUp (w : View) : Bool → Int × Bool → View → Prop where
  | already : SetUp w true (0, true) w
  | now : SetUp w false (0, true) { w with setUp := some 0 }
  | failed (res : Int) (hres : res ≠ 0) : SetUp w false (-1, false) { w with setUp := some res }

omit hG in
theorem hidInit_keeps (usbContext : Bool) :
    Program.Keeps (usbTerms grants lenient) (hidInit usbContext) w
      (fun r w' => SetUp w usbContext r w') := by
  cases usbContext with
  | true => exact .already
  | false =>
    refine fun (res : Int) _ => ⟨_, rfl, ?_⟩
    change SetUp w false (if res ≠ 0 then (-1, false) else (0, true)) _
    by_cases hres : res = 0
    · subst hres
      exact .now
    · rw [if_pos hres]
      exact .failed res hres

/-- How `hid_enumerate` ends: libusb could not be set up, or it gave no list, or the
devices of its list were looked at one by one, and each altsetting that the query is
after has its record. -/
inductive Enumerated (vendorId productId : UInt16) (usbContext : Bool) (w : View) :
    List DeviceInfo × Bool → Prop where
  | notSetUp (res : Int) (hbefore : usbContext = false) (hsetUp : w.setUp = some res)
      (hres : res ≠ 0) : Enumerated vendorId productId usbContext w ([], false)
  | noList (hsetUp : usbContext = true ∨ w.setUp = some 0) (hasked : w.asked = some none) :
      Enumerated vendorId productId usbContext w ([], true)
  | found {infos : List DeviceInfo} (devs : UsbList)
      (hsetUp : usbContext = true ∨ w.setUp = some 0) (hasked : w.asked = some (some devs))
      (hseen : w.seen.map Seen.dev = devs.devs) (hexamined : ∀ s ∈ w.seen, s.Examined)
      (hinfos : List.Forall₂ Describes infos (w.seen.flatMap (Seen.listed vendorId productId))) :
      Enumerated vendorId productId usbContext w (infos, true)

/-- `hid_enumerate` once libusb is set up. -/
theorem getDevices_keeps {usbContext : Bool} (hsetUp : usbContext = true ∨ w.setUp = some 0) :
    Program.Keeps (usbTerms grants lenient) (do
        match ← getDeviceList with
        | none => pure ([], true)
        | some devs => do
          let infos ← devs.devs.foldlM (listDevice host vendorId productId) []
          freeDeviceList devs
          pure (infos, true)) w
      (fun r w' => w'.books = w.books ∧
        (lenient ∨ Enumerated vendorId productId usbContext w' r)) := by
  refine Program.Keeps.perform (fun devs _ => ⟨_, rfl, ?_⟩)
  cases devs with
  | none => exact ⟨rfl, .inr (.noList hsetUp rfl)⟩
  | some devs =>
    refine (listDevices_keeps
      (w := ⟨{ w.books with lists := devs :: w.books.lists }, w.setUp, some (some devs), [], false⟩)
      hG host vendorId productId ?_ []).bind (fun infos u h => ?_)
    · intro d hd
      simpa [Books.knows] using hd
    · obtain ⟨ss, hss, hexamined, hu, hadds⟩ := h
      have hhead : u.books.lists.head? = some devs := by rw [hu]; rfl
      refine fun _ _ => ⟨_, View.require_pos hhead _, ?_, ?_⟩
      · rw [hu]
        rfl
      · refine hadds.imp_right (fun ⟨new, hinfos, hnew⟩ => ?_)
        have hseen : u.seen = ss := by rw [hu]; rfl
        refine .found devs ?_ ?_ ?_ ?_ ?_
        · rwa [hu]
        · rw [hu]
        · rwa [hseen]
        · rwa [hseen]
        · rw [hinfos, hseen]
          exact hnew

/-- Nothing is held any longer when `hid_enumerate` returns. -/
theorem hidEnumerate_keeps (usbContext : Bool) :
    Program.Keeps (usbTerms grants lenient) (hidEnumerate host vendorId productId usbContext) w
      (fun r w' => w'.books = w.books ∧
        (lenient ∨ Enumerated vendorId productId usbContext w' r)) := by
  refine (hidInit_keeps usbContext).bind (fun r w' h => ?_)
  cases h with
  | already => exact getDevices_keeps hG host vendorId productId (.inl rfl)
  | now =>
    exact getDevices_keeps (w := { w with setUp := some 0 }) hG host vendorId productId (.inr rfl)
  | failed res hres => exact ⟨rfl, .inr (.notSetUp res rfl rfl hres)⟩

end Enumerate

theorem hidEnumerate_ends {σ : Type} {h : UsbHost σ} (hh : ∀ c s, Provided ⟨c, (h c s).1⟩)
    (s : σ) (host : Endian) (vendorId productId : UInt16) (usbContext : Bool) :
    ∃ r t view, (hidEnumerate host vendorId productId usbContext).run h s = some (r, t) ∧
      ((hidEnumerate host vendorId productId usbContext).events h s).foldlM View.watch .empty =
        some view ∧
      view.books = .idle [] ∧ Enumerated vendorId productId usbContext view r := by
  have hkeeps : Program.Keeps (usbTerms Provided False)
      (hidEnumerate host vendorId productId usbContext) .empty _ :=
    hidEnumerate_keeps (fun _ => .inr) host vendorId productId usbContext
  obtain ⟨view, hfold, hend, hright⟩ := hkeeps.sound (h := h) hh s
  obtain ⟨⟨r, t⟩, hrun⟩ := Option.ne_none_iff_exists'.mp hright
  obtain ⟨hbooks, hlisted⟩ := hend r t hrun
  exact ⟨r, t, view, hrun, hfold, hbooks, hlisted.resolve_left id⟩

/-- `hid_enumerate` comes to an end. Its list is empty if libusb could not be set up or
gave no list of devices. Otherwise it went through that list, and it returns one record
for each altsetting of the HID class that libusb showed it on a device the query is
after, in the order it was shown them, each with the numbers and the path of its own
altsetting; and every list, configuration and handle taken from libusb has been given
back by then. -/
theorem hidEnumerate_lists {σ : Type} (h : UsbHost σ)
    (hh : ∀ c s, Provided ⟨c, (h c s).1⟩) (s : σ) (host : Endian) (vendorId productId : UInt16)
    (usbContext : Bool) :
    let p := hidEnumerate host vendorId productId usbContext
    ∃ r t view, p.run h s = some (r, t) ∧ (p.events h s).foldlM View.watch .empty = some view ∧
      view.books = .idle [] ∧ Enumerated vendorId productId usbContext view r :=
  hidEnumerate_ends hh s host vendorId productId usbContext

/-- The record of the dongle. -/
def dongleInfo (path : DevPath) : DeviceInfo :=
  ⟨0, some path, 0x04d8, 0xfb56, none, 0x0100, none, none, 2⟩

theorem dongle_listed : (hidEnumerate .little 0x04d8 0xfb56 false).run (Bus.host (Boot.serve id))
    ⟨oneBlock, []⟩ = some (([dongleInfo ⟨0, "0001:0004:02"⟩], true), ⟨oneBlock, []⟩) := rfl

/-- The one altsetting of the dongle has its record. -/
theorem hidEnumerate_lists_dongle : ∃ view : View,
    ((hidEnumerate .little 0x04d8 0xfb56 false).events (Bus.host (Boot.serve id))
      ⟨oneBlock, []⟩).foldlM View.watch .empty = some view ∧
    view.books = .idle [] ∧
    Enumerated 0x04d8 0xfb56 false view ([dongleInfo ⟨0, "0001:0004:02"⟩], true) := by
  obtain ⟨r, t, view, hrun, hfold, hbooks, hlisted⟩ :=
    hidEnumerate_lists (Bus.host (Boot.serve id)) (Bus.provided _) ⟨oneBlock, []⟩ .little 0x04d8
      0xfb56 false
  obtain ⟨rfl, -⟩ := Prod.mk.inj (Option.some.inj (dongle_listed.symm.trans hrun))
  exact ⟨view, hfold, hbooks, hlisted⟩

end Libfcd.Proofs
