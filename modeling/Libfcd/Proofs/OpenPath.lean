import Libfcd.Proofs.Listing

namespace Libfcd.Proofs
open Interaction Memory Hidapi Devices

/-- The altsettings of the HID class in the active configuration. -/
def Seen.hids (s : Seen) : List InterfaceDescriptor :=
  (s.active.join.getD []).flatten.filter isHid

/-- Those of a list of altsettings that a path leads to. -/
def Seen.select (path : String) (s : Seen) (xs : List InterfaceDescriptor) :
    List (Seen × InterfaceDescriptor) :=
  (xs.filter (fun a => isHid a ∧ s.pathTo a = path)).map (s, ·)

/-- The altsettings of a device that a path leads to. -/
def Seen.behind (path : String) (s : Seen) : List (Seen × InterfaceDescriptor) :=
  s.select path (s.active.join.getD []).flatten

/-- Where each device is, and what its interfaces are numbered. -/
structure Scattered (ss : List Seen) : Prop where
  located : (ss.map (fun s => (s.dev.busNumber, s.dev.deviceAddress))).Nodup
  numbered : ∀ s ∈ ss, (s.hids.map InterfaceDescriptor.bInterfaceNumber).Nodup

theorem mem_behind {path : String} {s : Seen} {x : Seen × InterfaceDescriptor}
    (hx : x ∈ s.behind path) : x.1 = s ∧ x.2 ∈ s.hids ∧ s.pathTo x.2 = path := by
  simp only [Seen.behind, Seen.select, List.mem_map, List.mem_filter, decide_eq_true_eq] at hx
  obtain ⟨a, ⟨ha, hhid, hpath⟩, rfl⟩ := hx
  exact ⟨rfl, List.mem_filter.mpr ⟨ha, hhid⟩, hpath⟩

theorem length_behind_le (path : String) {s : Seen}
    (hs : (s.hids.map InterfaceDescriptor.bInterfaceNumber).Nodup) :
    (s.behind path).length ≤ 1 := by
  have hlen : (s.behind path).length = (s.hids.map s.pathTo).count path := by
    simp only [Seen.behind, Seen.select, Seen.hids, List.length_map, List.count_eq_countP,
      List.countP_map, List.countP_filter, ← List.countP_eq_length_filter]
    congr 1
    funext a
    simp [Bool.and_comm, beq_eq_decide]
  rw [hlen]
  have hpaths : (s.hids.map s.pathTo).Nodup := by
    refine (List.nodup_map_iff_inj_on hs.of_map).mpr (fun a ha b hb hab => ?_)
    exact List.inj_on_of_nodup_map hs ha hb (pathOf_injective hab).2.2
  exact List.nodup_iff_count_le_one.mp hpaths path

/-- A path leads to one altsetting at most. -/
theorem Scattered.length_le {ss : List Seen} (h : Scattered ss) (path : String) :
    (ss.flatMap (Seen.behind path)).length ≤ 1 := by
  induction ss with
  | nil => exact Nat.zero_le 1
  | cons s ss ih =>
    have hrest := ih ⟨(List.nodup_cons.mp h.located).2, fun t ht => h.numbered t (by simp [ht])⟩
    have hone := length_behind_le path (h.numbered s (by simp))
    rw [List.flatMap_cons, List.length_append]
    by_contra hmore
    -- one in the first device and one in another, at the same place of the bus
    obtain ⟨x, hx⟩ := List.exists_mem_of_length_pos (l := s.behind path) (by omega)
    obtain ⟨y, hy⟩ := List.exists_mem_of_length_pos (l := ss.flatMap (Seen.behind path)) (by omega)
    obtain ⟨t, ht, hy⟩ := List.mem_flatMap.mp hy
    obtain ⟨-, -, hxp⟩ := mem_behind hx
    obtain ⟨-, -, hyp⟩ := mem_behind hy
    obtain ⟨hbus, haddr, -⟩ := pathOf_injective (hxp.trans hyp.symm)
    apply (List.nodup_cons.mp h.located).1
    exact List.mem_map.mpr ⟨t, ht, Prod.ext hbus.symm haddr.symm⟩

def Books.push (u : Books) (o : OpenHandle) : Books := { u with handles := o :: u.handles }

/-- The device that is returned for an altsetting. -/
def deviceOn (addr : Nat) (handle : UsbHandle) (transfer : Transfer)
    (x : Seen × InterfaceDescriptor) : HidDevice :=
  { HidDevice.configure { newHidDevice addr with deviceHandle := some handle } x.1.desc x.2 with
    transfer := some transfer }

/-- The handle of such a device: claimed, and read by its thread. -/
def handleOn (handle : UsbHandle) (transfer : Transfer) (x : Seen × InterfaceDescriptor) :
    OpenHandle :=
  ⟨handle, x.1.dev, some x.2.bInterfaceNumber, true, some transfer.addr⟩

/-- The loops of `hid_open_path` after the altsettings `xs` that its path leads to:
none of them yet, or one that was refused, or one that is open now. -/
inductive Trial (addr : Nat) (base : Books) :
    List (Seen × InterfaceDescriptor) → Attempt → View → Prop where
  | untouched {w : View} (hbooks : w.books = base) :
      Trial addr base [] ⟨newHidDevice addr, false⟩ w
  | refused {x : Seen × InterfaceDescriptor} {s : Attempt} {w : View} (hs : s.goodOpen = false)
      (hrefused : w.refused) (hbooks : w.books = base) : Trial addr base [x] s w
  | opened {x : Seen × InterfaceDescriptor} {w : View} (handle : UsbHandle)
      (transfer : Transfer) (hbooks : w.books = base.push (handleOn handle transfer x)) :
      Trial addr base [x] ⟨deviceOn addr handle transfer x, true⟩ w

/-- What the rules say of lists and configurations does not touch the progress. -/
theorem Trial.transport {addr : Nat} {base : Books} {xs : List (Seen × InterfaceDescriptor)}
    {s : Attempt} {w w' : View} (h : Trial addr base xs s w) {f : Books → Books}
    (hf : ∀ o, f (base.push o) = (f base).push o) (hbooks : w'.books = f w.books)
    (hrefused : w'.refused = w.refused) : Trial addr (f base) xs s w' := by
  cases h with
  | untouched h => exact .untouched (by rw [hbooks, h])
  | refused hs hr h => exact .refused hs (by rw [hrefused, hr]) (by rw [hbooks, h])
  | opened handle transfer h => exact .opened handle transfer (by rw [hbooks, h, hf])

theorem Trial.lists {addr : Nat} {base : Books} {xs : List (Seen × InterfaceDescriptor)}
    {s : Attempt} {w : View} (h : Trial addr base xs s w) :
    w.books.lists = base.lists ∧ w.books.configs = base.configs := by
  cases h with
  | untouched h => simp [h]
  | refused _ _ h => simp [h]
  | opened handle transfer h => simp [h, Books.push]

variable {grants : UsbHappening → Prop} {lenient : Prop} {addr : Nat} {base : Books}

/-- What a view has of the walk over the devices. -/
def View.walk (w : View) : Option Int × Option (Option UsbList) × List Seen :=
  (w.setUp, w.asked, w.seen)

theorem Unmoved.walk {w w' : View} (h : Unmoved w w') : w'.walk = w.walk := by
  simp [View.walk, h.setUp, h.asked, h.seen]

/-- A kernel driver that stays is a refusal. -/
theorem detachDriver_keeps {w : View} {handle : UsbHandle} (hw : w.books.newest handle none)
    (interface : UInt8) :
    Program.Keeps (usbTerms grants lenient) (detachDriver handle interface) w
      (fun ok w' => Unmoved w w' ∧ (ok = false → w'.refused)) := by
  refine Program.Keeps.perform (fun active _ => ⟨_, View.require_pos hw _, ?_⟩)
  split
  · refine Program.Keeps.perform
      (fun (res : Int) _ => ⟨_, View.require_pos hw _, ⟨rfl, rfl, rfl, rfl⟩, fun hres => ?_⟩)
    have hneg : res < 0 := by simpa using hres
    simp [View.failed, hneg]
  · exact ⟨.refl w, fun h => by cases h⟩

/-- The thread of a handle whose interface is claimed, and its transfer. -/
theorem readThread_keeps (hG : ∀ e, grants e → lenient ∨ Provided e) {w : View} {u : Books}
    {handle : UsbHandle} {dev : UsbDevice} {interface : UInt8}
    (hw : w.books = u.push ⟨handle, dev, some interface, false, none⟩) (inputEndpoint : UInt8)
    (length : UInt16) :
    Program.Keeps (usbTerms grants lenient) (readThread handle inputEndpoint length) w
      (fun transfer w' => w'.walk = w.walk ∧
        w'.books = u.push ⟨handle, dev, some interface, true, some transfer.addr⟩) := by
  refine Program.Keeps.perform (fun _ _ => ⟨_, View.require_pos ?_ _, ?_⟩)
  · simp [hw, Books.push]
  refine Program.Keeps.perform (fun buf _ => ⟨_, rfl, ?_⟩)
  refine Program.Keeps.perform (fun (transfer : Option Nat) htransfer =>
    ⟨_, View.require_pos ?_ _, ?_⟩)
  · simp [hw, Books.push, Books.amend]
  refine .expect_bind (fun transfer heq => ?_)
    (fun hnone => (hG _ htransfer).resolve_right (fun h => h hnone))
  subst heq
  refine Program.Keeps.perform (fun res _ => ⟨_, View.require_pos ?_ _, rfl, ?_⟩)
  · simp [hw, Books.push, Books.amend]
  · simp [hw, Books.push, Books.amend]

/-- The block for the altsetting that the path leads to. -/
theorem openMatched_keeps (hG : ∀ e, grants e → lenient ∨ Provided e) {w : View}
    (hw : w.books = base) (s : Seen) (hdev : base.knows s.dev) (a : InterfaceDescriptor)
    (devPath : Nat) :
    Program.Keeps (usbTerms grants lenient)
      (openMatched s.dev s.desc a devPath ⟨newHidDevice addr, false⟩) w
      (fun r w' => w'.walk = w.walk ∧ Trial addr base [(s, a)] r.1 w') := by
  subst hw
  refine Program.Keeps.perform (fun opened _ => ?_)
  cases opened with
  | none =>
    refine ⟨_, View.require_pos hdev _, fun _ _ => ⟨_, rfl, ?_⟩⟩
    exact ⟨rfl, .refused rfl rfl rfl⟩
  | some handle =>
    refine ⟨_, View.require_pos hdev _, ?_⟩
    have hnew : ∀ u : View, u.books = w.books.push ⟨handle, s.dev, none, false, none⟩ →
        u.books.newest handle none := by
      intro u hu
      simp [hu, Books.push, Books.newest]
    refine (detachDriver_keeps (hnew _ rfl) _).bind (fun detached u h => ?_)
    obtain ⟨hmoved, hrefused⟩ := h
    have hbooks : u.books = w.books.push ⟨handle, s.dev, none, false, none⟩ := hmoved.books
    have hwalk : u.walk = w.walk := hmoved.walk
    cases detached with
    | false =>
      refine fun _ _ => ⟨_, View.require_pos (hnew u hbooks) _, fun _ _ => ⟨_, rfl, ?_⟩⟩
      exact ⟨hwalk, .refused rfl (hrefused rfl) (by simp [hbooks, Books.push])⟩
    | true =>
      refine Program.Keeps.perform
        (fun (res : Int) _ => ⟨_, View.require_pos (hnew u hbooks) _, ?_⟩)
      by_cases hres : res < 0
      · have hfailed : View.failed res = true := by simp [View.failed, hres]
        rw [if_pos hres, if_pos hfailed]
        refine fun _ _ => ⟨_, rfl, fun _ _ => ?_⟩
        refine ⟨_, View.require_pos (hnew _ hbooks) _, hwalk, ?_⟩
        exact .refused rfl rfl (by simp [hbooks, Books.push])
      · have hfailed : ¬ View.failed res = true := by simpa [View.failed] using hres
        rw [if_neg hres, if_neg hfailed]
        have hclaimed : u.books.amend (fun o => { o with claimed := some a.bInterfaceNumber }) =
            w.books.push ⟨handle, s.dev, some a.bInterfaceNumber, false, none⟩ := by
          simp [hbooks, Books.amend, Books.push]
        refine (readThread_keeps hG hclaimed _ _).bind (fun transfer v hv => ?_)
        exact fun _ _ => ⟨_, rfl, hv.1.trans hwalk, .opened handle transfer hv.2⟩

/-- The loop over the altsettings `as` of one interface, when no more than one
altsetting is found in all. -/
theorem openAltsettings_keeps (hG : ∀ e, grants e → lenient ∨ Provided e) (path : String)
    (s : Seen) (hdev : base.knows s.dev) (as : List InterfaceDescriptor)
    {xs : List (Seen × InterfaceDescriptor)} (hone : (xs ++ s.select path as).length ≤ 1)
    {attempt : Attempt} {w : View} (h : Trial addr base xs attempt w) :
    Program.Keeps (usbTerms grants lenient) (openAltsettings path s.dev s.desc as attempt) w
      (fun r w' => w'.walk = w.walk ∧ Trial addr base (xs ++ s.select path as) r w') := by
  induction as generalizing xs attempt w with
  | nil => exact ⟨rfl, by simpa [Seen.select] using h⟩
  | cons a as ih =>
    rw [openAltsettings]
    by_cases hhid : a.bInterfaceClass = libusbClassHid
    · rw [if_pos hhid]
      refine Program.Keeps.perform (fun copy hcopy => ⟨w, rfl, ?_⟩)
      refine Program.Keeps.bind
        (P := fun (devPath : DevPath) w' => w' = w ∧ devPath.text = s.pathTo a)
        (.expect ?_ (fun hnone => ?_)) ?_
      · intro devPath hdevPath
        obtain ⟨block, -, rfl⟩ := Option.map_eq_some_iff.mp hdevPath
        exact ⟨rfl, rfl⟩
      · exact (hG _ hcopy).resolve_right (fun hblock => hblock (Option.map_eq_none_iff.mp hnone))
      · rintro devPath _ ⟨rfl, hdevPath⟩
        by_cases hpath : devPath.text = path
        · have hsel : s.select path (a :: as) = (s, a) :: s.select path as := by
            simp [Seen.select, isHid, hhid, ← hdevPath, hpath]
          rw [hsel] at hone ⊢
          -- the only one there is, so it is the first and nothing comes behind it
          have hxs : xs = [] := by
            rw [List.length_append, List.length_cons] at hone
            exact List.eq_nil_of_length_eq_zero (by omega)
          have has : s.select path as = [] := by
            rw [List.length_append, List.length_cons] at hone
            exact List.eq_nil_of_length_eq_zero (by omega)
          subst hxs
          obtain ⟨hbooks⟩ := h
          rw [if_pos hpath]
          refine (openMatched_keeps hG hbooks s hdev a _).bind (fun r u hr => ?_)
          obtain ⟨hwalk, htrial⟩ := hr
          obtain ⟨attempt, left⟩ := r
          cases left with
          | true => exact ⟨hwalk, by rwa [has]⟩
          | false =>
            exact (ih (by simp [has]) htrial).mono (fun _ _ h => ⟨h.1.trans hwalk, h.2⟩)
        · have hsel : s.select path (a :: as) = s.select path as := by
            simp [Seen.select, ← hdevPath, hpath]
          rw [hsel] at hone ⊢
          rw [if_neg hpath]
          exact fun _ _ => ⟨_, rfl, ih hone h⟩
    · have hsel : s.select path (a :: as) = s.select path as := by
        simp [Seen.select, isHid, hhid]
      rw [hsel] at hone ⊢
      rw [if_neg hhid]
      exact ih hone h

/-- The loop over the interfaces of one device. -/
theorem openInterfaces_keeps (hG : ∀ e, grants e → lenient ∨ Provided e) (path : String)
    (s : Seen) (hdev : base.knows s.dev) (ass : List (List InterfaceDescriptor))
    {xs : List (Seen × InterfaceDescriptor)} (hone : (xs ++ s.select path ass.flatten).length ≤ 1)
    {attempt : Attempt} {w : View} (h : Trial addr base xs attempt w) :
    Program.Keeps (usbTerms grants lenient)
      (ass.foldlM (fun attempt as => openAltsettings path s.dev s.desc as attempt) attempt) w
      (fun r w' => w'.walk = w.walk ∧ Trial addr base (xs ++ s.select path ass.flatten) r w') := by
  induction ass generalizing xs attempt w with
  | nil => exact ⟨rfl, by simpa [Seen.select] using h⟩
  | cons as ass ih =>
    have hsel : s.select path (as :: ass).flatten =
        s.select path as ++ s.select path ass.flatten := by
      simp [Seen.select]
    rw [hsel, ← List.append_assoc] at hone ⊢
    rw [List.foldlM_cons]
    have hfirst : (xs ++ s.select path as).length ≤ 1 := by
      rw [List.length_append] at hone
      omega
    refine (openAltsettings_keeps hG path s hdev as hfirst h).bind (fun r u hr => ?_)
    exact (ih hone hr.2).mono (fun _ _ h => ⟨h.1.trans hr.1, h.2⟩)

/-- One round of the loop over devices. -/
theorem openDevice_keeps (hG : ∀ e, grants e → lenient ∨ Provided e)
    (hG' : ∀ e, grants e → Distinct e) (path : String) {dev : UsbDevice} (hdev : base.knows dev)
    {attempt : Attempt} {w : View} (hseen : Scattered w.seen)
    (hnew : ∀ s ∈ w.seen, (s.dev.busNumber, s.dev.deviceAddress) ≠
      (dev.busNumber, dev.deviceAddress))
    (h : Trial addr base (w.seen.flatMap (Seen.behind path)) attempt w) :
    Program.Keeps (usbTerms grants lenient) (openDevice path attempt dev) w
      (fun r w' => ∃ s : Seen, s.dev = dev ∧ s.active.isSome ∧
        w'.walk = (w.setUp, w.asked, w.seen ++ [s]) ∧ Scattered (w.seen ++ [s]) ∧
        Trial addr base ((w.seen ++ [s]).flatMap (Seen.behind path)) r w') := by
  have hknows : w.books.knows dev := by
    rw [Books.knows, h.lists.1]
    exact hdev
  have hadd : ∀ s : Seen, s.dev = dev →
      (s.hids.map InterfaceDescriptor.bInterfaceNumber).Nodup → Scattered (w.seen ++ [s]) := by
    rintro s rfl hs
    refine ⟨?_, ?_⟩
    · rw [List.map_append, List.map_singleton]
      refine List.nodup_append.mpr ⟨hseen.located, List.nodup_singleton _, ?_⟩
      simpa using fun t ht => hnew t ht
    · intro t ht
      rcases List.mem_append.mp ht with ht | ht
      · exact hseen.numbered t ht
      · rwa [List.mem_singleton.mp ht]
  refine Program.Keeps.perform (fun desc _ => ⟨_, View.require_pos hknows _, ?_⟩)
  refine Program.Keeps.perform (fun conf hconf => ⟨_, View.require_pos hknows _, ?_⟩)
  rw [View.configured_append]
  cases conf with
  | none =>
    refine ⟨⟨dev, desc, some none, none⟩, rfl, rfl, rfl, hadd _ rfl List.nodup_nil, ?_⟩
    have hnone : (w.seen ++ [(⟨dev, desc, some none, none⟩ : Seen)]).flatMap (Seen.behind path) =
        w.seen.flatMap (Seen.behind path) := by
      simp [Seen.behind, Seen.select]
    rw [hnone]
    exact h.transport (f := id) (fun _ => rfl) rfl rfl
  | some conf =>
    have hs := hadd ⟨dev, desc, some (some conf.interface), none⟩ rfl (hG' _ hconf conf rfl)
    have hone := hs.length_le path
    rw [List.flatMap_append, List.flatMap_singleton] at hone
    have htrial : Trial addr { base with configs := conf :: base.configs }
        (w.seen.flatMap (Seen.behind path)) attempt
        ⟨{ w.books with configs := conf :: w.books.configs }, w.setUp, w.asked,
          w.seen ++ [⟨dev, desc, some (some conf.interface), none⟩], w.refused⟩ :=
      h.transport (f := fun u => { u with configs := conf :: u.configs }) (fun _ => rfl) rfl rfl
    have hdev' : Books.knows { base with configs := conf :: base.configs } dev := hdev
    have hloops := openInterfaces_keeps hG path ⟨dev, desc, some (some conf.interface), none⟩
      hdev' conf.interface hone htrial
    refine hloops.bind (fun r u hr => ?_)
    obtain ⟨hwalk, htrial'⟩ := hr
    have hhead : u.books.configs.head? = some conf := by rw [htrial'.lists.2]; rfl
    refine fun _ _ => ⟨_, View.require_pos hhead _, ?_⟩
    refine ⟨⟨dev, desc, some (some conf.interface), none⟩, rfl, rfl, hwalk, hs, ?_⟩
    rw [List.flatMap_append, List.flatMap_singleton]
    exact htrial'.transport (f := fun u => { u with configs := u.configs.tail })
      (fun _ => rfl) rfl rfl

/-- The loop over devices, which are all at places of their own. -/
theorem openDevices_keeps (hG : ∀ e, grants e → lenient ∨ Provided e)
    (hG' : ∀ e, grants e → Distinct e) (path : String) {devs : List UsbDevice}
    (hdevs : ∀ d ∈ devs, base.knows d) {attempt : Attempt} {w : View} (hseen : Scattered w.seen)
    (hapart : (w.seen.map Seen.dev ++ devs).Pairwise
      (fun d d' => (d.busNumber, d.deviceAddress) ≠ (d'.busNumber, d'.deviceAddress)))
    (h : Trial addr base (w.seen.flatMap (Seen.behind path)) attempt w) :
    Program.Keeps (usbTerms grants lenient) (devs.foldlM (openDevice path) attempt) w
      (fun r w' => ∃ ss : List Seen, ss.map Seen.dev = devs ∧ (∀ s ∈ ss, s.active.isSome) ∧
        w'.walk = (w.setUp, w.asked, w.seen ++ ss) ∧ Scattered (w.seen ++ ss) ∧
        Trial addr base ((w.seen ++ ss).flatMap (Seen.behind path)) r w') := by
  induction devs generalizing attempt w with
  | nil => exact ⟨[], rfl, by simp, by simp [View.walk], by simpa using hseen, by simpa using h⟩
  | cons dev devs ih =>
    rw [List.foldlM_cons]
    have hnew : ∀ s ∈ w.seen, (s.dev.busNumber, s.dev.deviceAddress) ≠
        (dev.busNumber, dev.deviceAddress) := fun s hs =>
      (List.pairwise_append.mp hapart).2.2 s.dev (List.mem_map_of_mem hs) dev (by simp)
    refine (openDevice_keeps hG hG' path (hdevs dev (by simp)) hseen hnew h).bind
      (fun r u hr => ?_)
    obtain ⟨s, rfl, hactive, hwalk, hscattered, htrial⟩ := hr
    obtain ⟨hsetUp, hasked, huseen⟩ : u.setUp = w.setUp ∧ u.asked = w.asked ∧
        u.seen = w.seen ++ [s] := by
      simpa [View.walk] using hwalk
    rw [← huseen] at hscattered htrial
    refine (ih (fun d hd => hdevs d (by simp [hd])) hscattered ?_ htrial).mono ?_
    · rwa [huseen, List.map_append, List.map_singleton, List.append_assoc, List.singleton_append]
    · rintro r' w' ⟨ss, rfl, hall, hwalk', hrest⟩
      rw [huseen, List.append_assoc, List.singleton_append] at hwalk' hrest
      rw [hsetUp, hasked] at hwalk'
      exact ⟨s :: ss, rfl, List.forall_mem_cons.mpr ⟨hactive, hall⟩, hwalk', hrest⟩

/-- Libusb is set up, and all devices of the list that it gave last were asked for
their active configuration. -/
structure Walked (usbContext : Bool) (w : View) : Prop where
  setUp : usbContext = true ∨ w.setUp = some 0
  devices : ∃ devs : UsbList, w.asked = some (some devs) ∧ w.seen.map Seen.dev = devs.devs
  examined : ∀ s ∈ w.seen, s.active.isSome

/-- How `hid_open_path` ends: libusb could not be set up, or the path led nowhere, or
the one altsetting behind it was refused, and nothing is held; or that altsetting is
open, claimed and read from. -/
inductive Opened (path : String) (usbContext : Bool) (base : Books) :
    Option HidDevice → View → Prop where
  | notSetUp {w : View} (res : Int) (hbefore : usbContext = false) (hsetUp : w.setUp = some res)
      (hres : res ≠ 0) (hbooks : w.books = base) : Opened path usbContext base none w
  | nowhere {w : View} (hwalked : Walked usbContext w)
      (hnone : w.seen.flatMap (Seen.behind path) = []) (hbooks : w.books = base) :
      Opened path usbContext base none w
  | refused {w : View} (hwalked : Walked usbContext w) (x : Seen × InterfaceDescriptor)
      (hx : w.seen.flatMap (Seen.behind path) = [x]) (hrefused : w.refused)
      (hbooks : w.books = base) : Opened path usbContext base none w
  | ready {w : View} (hwalked : Walked usbContext w) (addr : Nat) (handle : UsbHandle)
      (transfer : Transfer) (x : Seen × InterfaceDescriptor)
      (hx : w.seen.flatMap (Seen.behind path) = [x])
      (hbooks : w.books = base.push (handleOn handle transfer x)) :
      Opened path usbContext base (some (deviceOn addr handle transfer x)) w

theorem Opened.walked {path : String} {usbContext : Bool} {base : Books} {dev : HidDevice}
    {w : View} (h : Opened path usbContext base (some dev) w) : Walked usbContext w := by
  cases h with
  | ready hwalked => exact hwalked

theorem Opened.walked_of_setUp {path : String} {base : Books} {dev : Option HidDevice}
    {w : View} (h : Opened path true base dev w) : Walked true w := by
  cases h with
  | notSetUp _ hbefore => cases hbefore
  | nowhere hwalked => exact hwalked
  | refused hwalked => exact hwalked
  | ready hwalked => exact hwalked

/-- `hid_open_path` once libusb is set up. -/
theorem openWalk_keeps (hG : ∀ e, grants e → lenient ∨ Provided e)
    (hG' : ∀ e, grants e → Distinct e) (hG'' : ∀ e, grants e → lenient ∨ Enumerable e)
    (path : String) (addr : Nat) {usbContext : Bool} {w : View}
    (hsetUp : usbContext = true ∨ w.setUp = some 0) :
    Program.Keeps (usbTerms grants lenient) (do
        let devs ← getDeviceList
        let devs ← .expect devs
        let s ← devs.devs.foldlM (openDevice path) ⟨newHidDevice addr, false⟩
        freeDeviceList devs
        if s.goodOpen then pure (some s.dev, true)
        else do
          free addr
          pure (none, true)) w
      (fun r w' => Opened path usbContext w.books r.1 w' ∧ Scattered w'.seen) := by
  refine Program.Keeps.perform (fun devs hdevs => ⟨_, rfl, ?_⟩)
  cases devs with
  | none => exact (hG'' _ hdevs).resolve_right (fun h => h rfl)
  | some devs =>
    have hplaces : devs.devs.Pairwise
        (fun d d' => (d.busNumber, d.deviceAddress) ≠ (d'.busNumber, d'.deviceAddress)) :=
      List.pairwise_map.mp (hG' _ hdevs devs rfl)
    have hknows : ∀ d ∈ devs.devs,
        Books.knows { w.books with lists := devs :: w.books.lists } d := by
      intro d hd
      simpa [Books.knows] using hd
    have hstart : Trial addr { w.books with lists := devs :: w.books.lists } []
        ⟨newHidDevice addr, false⟩ ⟨{ w.books with lists := devs :: w.books.lists }, w.setUp,
          some (some devs), [], false⟩ := .untouched rfl
    have hloop := openDevices_keeps
      (w := ⟨{ w.books with lists := devs :: w.books.lists }, w.setUp, some (some devs), [], false⟩)
      hG hG' path hknows ⟨List.nodup_nil, by simp⟩ hplaces hstart
    refine hloop.bind (fun attempt u h => ?_)
    obtain ⟨ss, hss, hexamined, hwalk, hscattered, htrial⟩ := h
    rw [List.nil_append] at hwalk hscattered htrial
    obtain ⟨husetUp, hasked, rfl⟩ : u.setUp = w.setUp ∧ u.asked = some (some devs) ∧
        u.seen = ss := by
      simpa [View.walk] using hwalk
    have hwalked : Walked usbContext u := ⟨by rwa [husetUp], ⟨devs, hasked, hss⟩, hexamined⟩
    have hwalked' : Walked usbContext
        { u with books := { u.books with lists := u.books.lists.tail } } :=
      ⟨hwalked.setUp, hwalked.devices, hwalked.examined⟩
    have hhead : u.books.lists.head? = some devs := by rw [htrial.lists.1]; rfl
    refine fun _ _ => ⟨_, View.require_pos hhead _, ?_⟩
    generalize hxs : u.seen.flatMap (Seen.behind path) = xs at htrial
    cases htrial with
    | untouched hbooks =>
      exact fun _ _ => ⟨_, rfl, .nowhere hwalked' hxs (by simp [hbooks]), hscattered⟩
    | refused hs hrefused hbooks =>
      rw [hs]
      exact fun _ _ => ⟨_, rfl, .refused hwalked' _ hxs hrefused (by simp [hbooks]), hscattered⟩
    | opened handle transfer hbooks =>
      exact ⟨.ready hwalked' addr handle transfer _ hxs (by simp [hbooks, Books.push]), hscattered⟩

theorem hidOpenPath_keeps (hG : ∀ e, grants e → lenient ∨ Provided e)
    (hG' : ∀ e, grants e → Distinct e) (hG'' : ∀ e, grants e → lenient ∨ Enumerable e)
    (path : String) (usbContext : Bool) {w : View} :
    Program.Keeps (usbTerms grants lenient) (hidOpenPath path usbContext) w
      (fun r w' => Opened path usbContext w.books r.1 w' ∧ (w.seen = [] → Scattered w'.seen)) := by
  refine Program.Keeps.perform (fun addr haddr => ⟨w, rfl, ?_⟩)
  refine .expect_bind (fun addr _ => ?_)
    (fun hnone => (hG _ haddr).resolve_right (fun h => h hnone))
  refine (hidInit_keeps usbContext).bind (fun r w' h => ?_)
  cases h with
  | already =>
    exact (openWalk_keeps hG hG' hG'' path addr (.inl rfl)).mono
      (fun _ _ hr => ⟨hr.1, fun _ => hr.2⟩)
  | now =>
    exact (openWalk_keeps (w := { w with setUp := some 0 }) hG hG' hG'' path addr
      (.inr rfl)).mono (fun _ _ hr => ⟨hr.1, fun _ => hr.2⟩)
  | failed res hres =>
    refine ⟨.notSetUp res rfl rfl hres rfl, fun hseen => ?_⟩
    change Scattered w.seen
    rw [hseen]
    exact ⟨List.nodup_nil, by simp⟩

theorem hidOpenPath_ends {σ : Type} {h : UsbHost σ} (hh : ∀ c s, Openable ⟨c, (h c s).1⟩) (s : σ)
    (path : String) (usbContext : Bool) :
    ∃ dev usbContext' t view,
      (hidOpenPath path usbContext).run h s = some ((dev, usbContext'), t) ∧
      ((hidOpenPath path usbContext).events h s).foldlM View.watch .empty = some view ∧
      Opened path usbContext (.idle []) dev view ∧ Scattered view.seen := by
  have hkeeps : Program.Keeps (usbTerms Openable False) (hidOpenPath path usbContext) .empty _ :=
    hidOpenPath_keeps (fun _ h => .inr h.1) (fun _ h => h.2.1) (fun _ h => .inr h.2.2) path
      usbContext
  obtain ⟨view, hfold, hend, hright⟩ := hkeeps.sound (h := h) hh s
  obtain ⟨⟨⟨dev, usbContext'⟩, t⟩, hrun⟩ := Option.ne_none_iff_exists'.mp hright
  obtain ⟨hopened, hscattered⟩ := hend _ t hrun
  exact ⟨dev, usbContext', t, view, hrun, hfold, hopened, hscattered rfl⟩

/-- `hid_open_path` comes to an end. Without a device nothing is left open: libusb
could not be set up, or the path led to no altsetting of the HID class on a configured
device of the list, or libusb refused the device or the interface. With one, the path
led to exactly one altsetting, and that is open, claimed and read from, with nothing
else held. -/
theorem hidOpenPath_opens {σ : Type} (h : UsbHost σ) (hh : ∀ c s, Openable ⟨c, (h c s).1⟩) (s : σ)
    (path : String) (usbContext : Bool) :
    let p := hidOpenPath path usbContext
    ∃ dev usbContext' t view, p.run h s = some ((dev, usbContext'), t) ∧
      (p.events h s).foldlM View.watch .empty = some view ∧
      Opened path usbContext (.idle []) dev view ∧ Scattered view.seen :=
  hidOpenPath_ends hh s path usbContext

/-- The dongle as it is opened, with its two endpoints. -/
def dongleDevice : HidDevice := ⟨0, some 0, 0x81, 0x01, 64, 2, 0, 0, 0, true, some ⟨0, some 0⟩⟩

theorem dongle_opened : (hidOpenPath "0001:0004:02" true).run (Bus.host (Boot.serve id))
    ⟨oneBlock, []⟩ = some ((some dongleDevice, true), ⟨oneBlock, []⟩) := rfl

theorem hidOpenPath_opens_dongle : ∃ view : View,
    ((hidOpenPath "0001:0004:02" true).events (Bus.host (Boot.serve id))
      ⟨oneBlock, []⟩).foldlM View.watch .empty = some view ∧
    Opened "0001:0004:02" true (.idle []) (some dongleDevice) view ∧ Scattered view.seen := by
  obtain ⟨dev, usbContext', t, view, hrun, hfold, hopened, hscattered⟩ :=
    hidOpenPath_opens (Bus.host (Boot.serve id)) (Bus.openable _) ⟨oneBlock, []⟩ "0001:0004:02" true
  obtain ⟨⟨rfl, -⟩, -⟩ := Prod.mk.inj (Option.some.inj (dongle_opened.symm.trans hrun)) |>.imp
    Prod.mk.inj id
  exact ⟨view, hfold, hopened, hscattered⟩

theorem mem_listed {vendorId productId : UInt16} {s : Seen} {x : Seen × InterfaceDescriptor}
    (hx : x ∈ s.listed vendorId productId) :
    x.1 = s ∧ x.2 ∈ s.shown ∧ matchesQuery vendorId productId s.desc x.2 = true := by
  simp only [Seen.listed, List.mem_map, List.mem_filter] at hx
  obtain ⟨a, ⟨ha, hmatch⟩, rfl⟩ := hx
  exact ⟨rfl, ha, hmatch⟩

/-- Libusb shows a device at the same place again, with the same configuration. -/
structure Seen.Unchanged (s s' : Seen) : Prop where
  busNumber : s'.dev.busNumber = s.dev.busNumber
  deviceAddress : s'.dev.deviceAddress = s.dev.deviceAddress
  active : s'.active = s.active

theorem Seen.Unchanged.pathTo {s s' : Seen} (h : s.Unchanged s') (a : InterfaceDescriptor) :
    s'.pathTo a = s.pathTo a := by
  rw [Seen.pathTo, Seen.pathTo, h.busNumber, h.deviceAddress]

/-- Behind the path of a listed altsetting is that altsetting, if its device is
configured. -/
theorem behind_listed {vendorId productId : UInt16} {s s' : Seen}
    {x : Seen × InterfaceDescriptor} (hx : x ∈ s.listed vendorId productId)
    (hsame : s.Unchanged s') (hactive : s.active.join.isSome) :
    (s', x.2) ∈ s'.behind (s'.pathTo x.2) := by
  obtain ⟨-, hshown, hmatch⟩ := mem_listed hx
  obtain ⟨conf, hconf⟩ := Option.isSome_iff_exists.mp hactive
  have hhid : isHid x.2 := by
    simp only [matchesQuery, decide_eq_true_eq] at hmatch
    simpa [isHid] using hmatch.1
  have hmem : x.2 ∈ conf.flatten := by simpa [Seen.shown, hconf] using hshown
  refine List.mem_map.mpr ⟨x.2, List.mem_filter.mpr ⟨?_, ?_⟩, rfl⟩
  · rw [hsame.active, hconf]
    exact hmem
  · simp [hhid]

/-- Nothing is behind the path of a device that is not configured. -/
theorem Scattered.nothing_behind {ss : List Seen} (h : Scattered ss) {s : Seen} (hs : s ∈ ss)
    (hactive : s.active.join = none) (a : InterfaceDescriptor) :
    ss.flatMap (Seen.behind (s.pathTo a)) = [] := by
  refine List.flatMap_eq_nil_iff.mpr (fun s' hs' => List.eq_nil_iff_forall_not_mem.mpr ?_)
  intro x hx
  obtain ⟨rfl, hhid, hpath⟩ := mem_behind hx
  obtain ⟨hbus, haddr, -⟩ := pathOf_injective hpath
  obtain rfl := List.inj_on_of_nodup_map h.located hs' hs (Prod.ext hbus haddr)
  rw [Seen.hids, hactive] at hhid
  cases hhid

theorem describes_of_mem {infos : List DeviceInfo} {xs : List (Seen × InterfaceDescriptor)}
    (h : List.Forall₂ Describes infos xs) {info : DeviceInfo} (hinfo : info ∈ infos) :
    ∃ x ∈ xs, Describes info x := by
  induction h with
  | nil => cases hinfo
  | cons hx _ ih =>
    rcases List.mem_cons.mp hinfo with rfl | hmem
    · exact ⟨_, by simp, hx⟩
    · obtain ⟨x, hx, hdescribes⟩ := ih hmem
      exact ⟨x, by simp [hx], hdescribes⟩

/-- A record of the list is about an altsetting that was shown. -/
theorem Enumerated.describes {vendorId productId : UInt16} {usbContext : Bool} {w : View}
    {r : List DeviceInfo × Bool} (h : Enumerated vendorId productId usbContext w r)
    {info : DeviceInfo} (hinfo : info ∈ r.1) :
    ∃ x : Seen × InterfaceDescriptor, Describes info x ∧ x.1 ∈ w.seen ∧
      x ∈ x.1.listed vendorId productId := by
  cases h with
  | notSetUp => cases hinfo
  | noList => cases hinfo
  | found devs _ _ _ _ hinfos =>
    obtain ⟨x, hx, hdescribes⟩ := describes_of_mem hinfos hinfo
    obtain ⟨s, hs, hx⟩ := List.mem_flatMap.mp hx
    obtain ⟨rfl, -, -⟩ := mem_listed hx
    exact ⟨x, hdescribes, hs, hx⟩

/-- What comes of the path of the altsetting `x` in the walk of `w`: wherever its device
is met as it was, the altsetting is opened if the device is configured and libusb
does not refuse it, and nothing is opened if it is not. -/
def Leads (x : Seen × InterfaceDescriptor) (w : View) (dev : Option HidDevice) : Prop :=
  ∀ now ∈ w.seen, x.1.Unchanged now →
    (x.1.active.join.isSome → w.refused = false →
      ∃ addr handle transfer, dev = some (deviceOn addr handle transfer (now, x.2))) ∧
    (x.1.active.join = none → dev = none)

/-- Where a device was opened with the path of a listed altsetting, it is on that
altsetting, or its device is not configured. -/
theorem Opened.leads {vendorId productId : UInt16} {x : Seen × InterfaceDescriptor}
    (hx : x ∈ x.1.listed vendorId productId) {usbContext : Bool} {base : Books}
    {dev : Option HidDevice} {w : View} (hopened : Opened (x.1.pathTo x.2) usbContext base dev w)
    (hscattered : Scattered w.seen) (hwalked : Walked usbContext w) : Leads x w dev := by
  intro now hnow hsame
  rw [← hsame.pathTo] at hopened
  refine ⟨fun hactive hrefused => ?_, fun hactive => ?_⟩
  · have hbehind : (now, x.2) ∈ w.seen.flatMap (Seen.behind (now.pathTo x.2)) :=
      List.mem_flatMap.mpr ⟨now, hnow, behind_listed hx hsame hactive⟩
    cases hopened with
    | notSetUp res hbefore hsetUp hres =>
      have hzero : w.setUp = some 0 := hwalked.setUp.resolve_left (by simp [hbefore])
      exact absurd (Option.some.inj (hsetUp.symm.trans hzero)) hres
    | nowhere _ hnone =>
      rw [hnone] at hbehind
      cases hbehind
    | refused _ _ _ hyes =>
      rw [hrefused] at hyes
      cases hyes
    | ready _ addr handle transfer y hy _ =>
      rw [hy] at hbehind
      rw [List.mem_singleton.mp hbehind]
      exact ⟨addr, handle, transfer, rfl⟩
  · have hnone := hscattered.nothing_behind hnow (by rw [hsame.active, hactive]) x.2
    cases hopened with
    | notSetUp => rfl
    | nowhere => rfl
    | refused => rfl
    | ready _ addr handle transfer y hy _ =>
      rw [hnone] at hy
      cases hy

/-- From listing to opening. A record that `hid_enumerate` made is about one altsetting
that it was shown, and with the path of the record `hid_open_path` comes there and
nowhere else, at any later time at which libusb shows that device as before. If the
device is configured it is opened unless libusb refuses it; a device that is not
configured is listed all the same, and is never opened. -/
theorem listed_path_opens {σ : Type} (h : UsbHost σ) (hh : ∀ c s, Openable ⟨c, (h c s).1⟩)
    (host : Endian) {vendorId productId : UInt16} {usbContext : Bool} {s t : σ}
    {r : List DeviceInfo × Bool}
    (hrun : (hidEnumerate host vendorId productId usbContext).run h s = some (r, t))
    {info : DeviceInfo} (hinfo : info ∈ r.1) :
    ∃ (listing : View) (x : Seen × InterfaceDescriptor),
      ((hidEnumerate host vendorId productId usbContext).events h s).foldlM View.watch .empty =
        some listing ∧
      x.1 ∈ listing.seen ∧ x ∈ x.1.listed vendorId productId ∧ Describes info x ∧
      ∀ s' usbContext', ∃ dev usbContext'' t' view,
        (hidOpenPath (x.1.pathTo x.2) usbContext').run h s' = some ((dev, usbContext''), t') ∧
        ((hidOpenPath (x.1.pathTo x.2) usbContext').events h s').foldlM View.watch .empty =
          some view ∧
        Opened (x.1.pathTo x.2) usbContext' (.idle []) dev view ∧
        (Walked usbContext' view → Leads x view dev) := by
  obtain ⟨r₁, t₁, listing, hrun₁, hfold, -, hlisted⟩ := hidEnumerate_ends
    (fun c s => (hh c s).1) s host vendorId productId usbContext
  obtain ⟨rfl, rfl⟩ := Prod.mk.inj (Option.some.inj (hrun.symm.trans hrun₁))
  obtain ⟨x, hdescribes, hseen, hx⟩ := hlisted.describes hinfo
  refine ⟨listing, x, hfold, hseen, hx, hdescribes, fun s' usbContext' => ?_⟩
  obtain ⟨dev, usbContext'', t', view, hopen, hfold', hopened, hscattered⟩ :=
    hidOpenPath_ends hh s' (x.1.pathTo x.2) usbContext'
  exact ⟨dev, usbContext'', t', view, hopen, hfold', hopened, hopened.leads hx hscattered⟩

theorem listed_path_opens_dongle : ∃ (x : Seen × InterfaceDescriptor) (view : View),
    Describes (dongleInfo ⟨0, "0001:0004:02"⟩) x ∧
    ((hidOpenPath "0001:0004:02" true).events (Bus.host (Boot.serve id))
      ⟨oneBlock, []⟩).foldlM View.watch .empty = some view ∧
    Walked true view ∧ Leads x view (some dongleDevice) := by
  obtain ⟨listing, x, -, -, -, hdescribes, hopens⟩ := listed_path_opens
    (Bus.host (Boot.serve id)) (Bus.openable _) .little dongle_listed (List.mem_singleton.mpr rfl)
  have hpath : "0001:0004:02" = x.1.pathTo x.2 := Option.some.inj hdescribes.path
  rw [← hpath] at hopens
  obtain ⟨dev, usbContext'', t', view, hrun, hfold, hopened, hleads⟩ := hopens ⟨oneBlock, []⟩ true
  obtain ⟨⟨rfl, -⟩, -⟩ := Prod.mk.inj (Option.some.inj (dongle_opened.symm.trans hrun)) |>.imp
    Prod.mk.inj id
  exact ⟨x, view, hdescribes, hfold, hopened.walked, hleads hopened.walked⟩

end Libfcd.Proofs
