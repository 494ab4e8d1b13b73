import Libfcd.Devices.Wires
import Libfcd.Proofs.Fleet
import Libfcd.Proofs.Silence
import Libfcd.Proofs.Stack

namespace Libfcd.Proofs
open Interaction Memory Hidapi Devices
open Model (Call opening writing reading closing)

/-- What the events of libusb tell of a bus: which device was opened last, where an
interface was claimed last, and whether nothing has been queued there since. -/
structure Sync where
  device : Option UsbDevice
  path : String
  clear : Bool
  deriving DecidableEq, Repr

namespace Sync

/-- The rule is that nothing is sent. -/
def watch : Watch UsbCall UsbCall.Answer Sync := fun w e =>
  match e with
  | ⟨.libusbOpen dev, handle⟩ =>
    some (if Option.isSome handle then { w with device := some dev } else w)
  | ⟨.claimInterface _ interface, res⟩ =>
    some (if View.failed res then w
      else { w with path := claimedPath w.device w.path interface })
  | ⟨.startReadThread .., _⟩ => some { w with clear := true }
  | ⟨.takeReport .., _⟩ => some { w with clear := false }
  | ⟨.controlTransfer .., _⟩ | ⟨.interruptTransfer .., _⟩ => none
  | _ => some w

def terms : Terms UsbCall UsbCall.Answer Sync := ⟨fun _ => True, watch, True⟩

abbrev Keeps {α : Type} (p : Usb α) (w : Sync) (Q : α → Sync → Prop) : Prop :=
  Program.Keeps terms p w Q

/-- What is told of the bus is so. -/
structure Tracks {D : Type} (w : Sync) (v : Wires D) : Prop where
  device : v.device = w.device
  path : v.path = w.path
  queued : w.clear = true → v.queued = []

variable {D α β σ : Type} {serve : Serve D} {w w' : Sync}

theorem Tracks.step {v v' : Wires D} {e : UsbHappening} (h : Tracks w v)
    (hw : watch w e = some w') (hv : v.Moves serve e v') : Tracks w' v' ∧ v'.dongle = v.dongle := by
  obtain ⟨c, r⟩ := e
  cases c with
  | libusbOpen dev =>
    obtain rfl := Option.some.inj hw
    obtain rfl : v' = _ := hv
    split
    · exact ⟨⟨rfl, h.path, h.queued⟩, rfl⟩
    · exact ⟨h, rfl⟩
  | claimInterface handle interface =>
    obtain rfl := Option.some.inj hw
    obtain rfl : v' = _ := hv
    split
    · exact ⟨h, rfl⟩
    · exact ⟨⟨h.device, by rw [Wires.claim, h.device, h.path], h.queued⟩, rfl⟩
  | startReadThread handle =>
    obtain rfl := Option.some.inj hw
    obtain rfl : v' = _ := hv
    exact ⟨⟨h.device, h.path, fun _ => rfl⟩, rfl⟩
  | takeReport handle length milliseconds =>
    obtain rfl := Option.some.inj hw
    cases (show Wires.Take length v r v' from hv) with
    | failed => exact ⟨⟨h.device, h.path, nofun⟩, rfl⟩
    | taken => exact ⟨⟨h.device, h.path, nofun⟩, rfl⟩
  | controlTransfer handle requestType request value index data timeout => cases hw
  | interruptTransfer handle endpoint data timeout => cases hw
  | _ =>
    obtain rfl := Option.some.inj hw
    obtain rfl : v' = v := hv
    exact ⟨h, rfl⟩

/-- A run in which nothing is sent moves no dongle, and leaves the bus as its events
tell. -/
theorem Tracks.run {h : UsbHost σ} {view : σ → Wires D} (hh : Wired serve h view) {p : Usb α}
    {Q : α → Sync → Prop} (hp : Keeps p w Q) {s t : σ} {a : α} (hs : Tracks w (view s))
    (hrun : p.run h s = some (a, t)) :
    ∃ w', Q a w' ∧ Tracks w' (view t) ∧ (view t).dongle = (view s).dongle := by
  induction p generalizing w s with
  | done b =>
    obtain ⟨rfl, rfl⟩ := Prod.mk.inj (Option.some.inj hrun)
    exact ⟨w, hp, hs, rfl⟩
  | call i next ih =>
    obtain ⟨u, hu, hnext⟩ := hp (h i s).1 trivial
    obtain ⟨hu', hstill⟩ := hs.step hu (hh i s)
    obtain ⟨w', hQ, htracks, hdongle⟩ := ih _ hnext hu' hrun
    exact ⟨w', hQ, htracks, hdongle.trans hstill⟩
  | wrong => cases hrun

theorem still_watch {c : UsbCall} (hc : Still c) (r : c.Answer) (w : Sync) :
    ∃ w', watch w ⟨c, r⟩ = some w' ∧ w'.path = w.path := by
  cases c with
  | libusbOpen dev => exact ⟨_, rfl, by split <;> rfl⟩
  | claimInterface handle interface => cases hc
  | controlTransfer handle requestType request value index data timeout => cases hc
  | interruptTransfer handle endpoint data timeout => cases hc
  | _ => exact ⟨_, rfl, rfl⟩

theorem still_keeps {p : Usb α} {Q : α → Prop} (hp : Program.Confined Still p Q) (w : Sync) :
    Keeps p w (fun _ w' => w'.path = w.path) := by
  induction p generalizing w with
  | done a => exact rfl
  | call i next ih =>
    intro r _
    obtain ⟨w', hw', hpath⟩ := still_watch hp.1 r w
    exact ⟨w', hw', (ih r (hp.2 r) w').mono (fun _ _ h => h.trans hpath)⟩
  | wrong => exact trivial

/-- While the path is looked for it is the one claimed last, if any was, and a device
that is open has it. -/
structure Seeking (path before : String) (s : Attempt) (w : Sync) : Prop where
  claimed : w.path = path ∨ w.path = before
  ready : s.goodOpen = true → w.path = path ∧ w.clear = true

/-- A thread that was started has nothing queued. -/
theorem readThread_keeps (handle : UsbHandle) (inputEndpoint : UInt8) (length : UInt16) :
    Keeps (readThread handle inputEndpoint length) w
      (fun _ w' => w' = { w with clear := true }) := by
  refine .perform (fun _ _ => ⟨_, rfl, ?_⟩)
  refine .perform (fun buf _ => ⟨_, rfl, ?_⟩)
  refine .perform (fun transfer _ => ⟨_, rfl, ?_⟩)
  exact Program.Keeps.expect_bind (fun transfer _ => fun _ _ => ⟨_, rfl, rfl⟩) (fun _ => trivial)

theorem openMatched_seeks {path before : String} {usbDev : UsbDevice}
    (desc : DeviceDescriptor) {intfDesc : InterfaceDescriptor}
    (hpath : pathOf usbDev.busNumber usbDev.deviceAddress intfDesc.bInterfaceNumber = path)
    (devPath : Nat) {s : Attempt} (hs : Seeking path before s w) :
    Keeps (openMatched usbDev desc intfDesc devPath s) w
      (fun r w' => Seeking path before r.1 w') := by
  refine .perform (fun (handle : Option UsbHandle) _ => ⟨_, rfl, ?_⟩)
  cases handle with
  | none => exact fun _ _ => ⟨w, rfl, hs⟩
  | some handle =>
    let w₁ : Sync := { w with device := some usbDev }
    have hfailed : Seeking path before ⟨{ s.dev with deviceHandle := some handle }, false⟩ w₁ :=
      ⟨hs.claimed, nofun⟩
    have hdetach : Keeps (detachDriver handle intfDesc.bInterfaceNumber) w₁
        (fun _ w' => w' = w₁) := by
      refine .perform (fun (active : Int) _ => ⟨w₁, rfl, ?_⟩)
      split
      · exact fun _ _ => ⟨w₁, rfl, rfl⟩
      · exact rfl
    refine hdetach.bind ?_
    rintro detached _ rfl
    split
    · refine .perform (fun (res : Int) _ => ?_)
      by_cases hres : res < 0
      · refine ⟨w₁, by simp [terms, watch, View.failed, hres], ?_⟩
        rw [if_pos hres]
        exact fun _ _ => ⟨w₁, rfl, fun _ _ => ⟨w₁, rfl, hfailed⟩⟩
      · refine ⟨{ w₁ with path := path }, ?_, ?_⟩
        · simp [terms, watch, View.failed, hres, claimedPath, w₁, hpath]
        · rw [if_neg hres]
          refine (readThread_keeps handle _ _).bind (fun transfer u hu => ?_)
          subst hu
          exact fun _ _ => ⟨_, rfl, .inl rfl, fun _ => ⟨rfl, rfl⟩⟩
    · exact fun _ _ => ⟨w₁, rfl, fun _ _ => ⟨w₁, rfl, hfailed⟩⟩

theorem openAltsettings_seeks {path before : String} (usbDev : UsbDevice)
    (desc : DeviceDescriptor) (intf : List InterfaceDescriptor) {s : Attempt}
    (hs : Seeking path before s w) :
    Keeps (openAltsettings path usbDev desc intf s) w (Seeking path before) := by
  induction intf generalizing s w with
  | nil => exact hs
  | cons intfDesc rest ih =>
    rw [openAltsettings]
    split
    · refine .perform (fun (copy : Option Nat) _ => ⟨w, rfl, ?_⟩)
      refine Program.Keeps.expect_bind (fun devPath hdev => ?_) (fun _ => trivial)
      obtain ⟨addr, -, rfl⟩ := Option.map_eq_some_iff.mp hdev
      dsimp only
      split
      · rename_i hpath
        refine (openMatched_seeks desc hpath addr hs).bind (fun r w' hr => ?_)
        obtain ⟨s', left⟩ := r
        split
        · exact hr
        · exact ih hr
      · exact fun _ _ => ⟨w, rfl, ih hs⟩
    · exact ih hs

theorem openDevice_seeks {path before : String} {s : Attempt} (hs : Seeking path before s w)
    (usbDev : UsbDevice) : Keeps (openDevice path s usbDev) w (Seeking path before) := by
  refine .perform (fun desc _ => ⟨w, rfl, ?_⟩)
  refine .perform (fun (confDesc : Option ConfigDescriptor) _ => ⟨w, rfl, ?_⟩)
  cases confDesc with
  | none => exact hs
  | some confDesc =>
    refine (Program.Keeps.foldlM (I := fun _ => Seeking path before)
      (fun intf _ s w hs => openAltsettings_seeks usbDev desc intf hs) hs).bind ?_
    exact fun s w' hs => fun _ _ => ⟨w', rfl, hs⟩

/-- A device that was opened is the one at the path, with nothing queued. -/
theorem hidOpenPath_synced (path : String) (usbContext : Bool) (w : Sync) :
    Keeps (hidOpenPath path usbContext) w (fun r w' =>
      (r.1.isSome = true → w'.path = path ∧ w'.clear = true) ∧
      (w'.path = path ∨ w'.path = w.path)) := by
  refine .perform (fun addr _ => ⟨w, by cases addr <;> rfl, ?_⟩)
  refine Program.Keeps.expect_bind (fun addr _ => ?_) (fun _ => trivial)
  refine (still_keeps (hidInit_still usbContext) w).bind (fun r w₁ hw₁ => ?_)
  obtain ⟨res, usbContext⟩ := r
  dsimp only
  split
  · exact ⟨(fun hopen => by cases hopen), .inr hw₁⟩
  · refine .perform (fun devs _ => ⟨w₁, rfl, ?_⟩)
    refine Program.Keeps.expect_bind (fun devs _ => ?_) (fun _ => trivial)
    refine (Program.Keeps.foldlM (I := fun _ => Seeking path w.path)
      (fun dev _ s u hs => openDevice_seeks hs dev)
      ⟨.inr hw₁, (fun hopen => by cases hopen)⟩).bind ?_
    refine fun s u hs => fun _ _ => ⟨u, rfl, ?_⟩
    split
    · exact ⟨fun _ => hs.ready ‹_›, hs.claimed⟩
    · exact fun _ _ => ⟨u, rfl, (fun hopen => by cases hopen), hs.claimed⟩

theorem hidLibusb_synced (host : Endian) {c : Call} (hopen : ∀ path, c ≠ .hidOpenPath path)
    (hwrite : ∀ dev data, c ≠ .hidWrite dev data) (t : Stack) (w : Sync) :
    Keeps (hidLibusb host c t) w (fun _ w' => w'.path = w.path) := by
  by_cases hprint : ∃ stream text, c = .print stream text
  · obtain ⟨stream, text, rfl⟩ := hprint
    exact fun _ _ => ⟨w, rfl, rfl⟩
  · exact still_keeps (hidLibusb_still host hopen hwrite
      (fun stream text hc => hprint ⟨stream, text, hc⟩) t) w

theorem hidLibusb_opens (host : Endian) (path : String) (t : Stack) (w : Sync) :
    Keeps (hidLibusb host (.hidOpenPath path) t) w (fun x w' =>
      (Option.isSome x.1 = true → w'.path = path ∧ w'.clear = true) ∧
      (w'.path = path ∨ w'.path = w.path)) := by
  refine (hidOpenPath_synced path t.usbContext w).bind (fun r w' hr => ?_)
  obtain ⟨dev, usbContext⟩ := r
  cases dev with
  | none => exact ⟨(fun hopen => by cases hopen), hr.2⟩
  | some dev => exact ⟨fun _ => hr.1 rfl, hr.2⟩

end Sync

open Sync

/-- A host that takes no reports with a report ID. -/
def unnumbered {σ : Type} (h : Model.Host σ) : Model.Host σ := fun c s =>
  match c with
  | .hidWrite dev report =>
    if report.head? = some 0 then h (.hidWrite dev report) s else ((-1 : Int), s)
  | c => h c s

/-- `hid-libusb.c` as a host for the library, over a libusb. -/
def stackHost {σ : Type} (host : Endian) (h : UsbHost σ) : Model.Host (Stack × σ) :=
  unnumbered ((hidLibusb host).answers Bus.elsewhere h)

section

variable {D σ : Type} {serve : Serve D} {h : UsbHost σ} {view : σ → Wires D}

/-- What a call answers that sends nothing, and where it leaves the bus. -/
theorem answers_synced (hh : Wired serve h view) {host : Endian} {c : Call}
    {Q : Sync → c.Answer × Stack → Sync → Prop} (t : Stack)
    (hp : ∀ w, Sync.Keeps (hidLibusb host c t) w (Q w)) (s : σ) :
    let y := (hidLibusb host).answers Bus.elsewhere h c (t, s)
    y = (Bus.elsewhere c, (t, s)) ∨
      ∃ w', Q ⟨(view s).device, (view s).path, false⟩ (y.1, y.2.1) w' ∧ Tracks w' (view y.2.2) ∧
        (view y.2.2).dongle = (view s).dongle := by
  intro y
  cases hrun : (hidLibusb host c t).run h s with
  | none => exact .inl (by simp only [y, Layer.answers, hrun])
  | some x =>
    obtain ⟨⟨r, t'⟩, s'⟩ := x
    have hy : y = (r, (t', s')) := Layer.answers_eq hrun
    rw [hy]
    exact .inr (Tracks.run hh (hp _) ⟨rfl, rfl, fun h => by cases h⟩ hrun)

/-- A write on `hid-libusb.c` is one transfer, or it goes wrong. -/
theorem hidWrite_transfers (hh : Wired serve h view) {host : Endian} {d : Model.Handle}
    {data : Bytes} {t t' : Stack} {s s' : σ} {res : Int}
    (hrun : (hidLibusb host (.hidWrite d (0 :: data)) t).run h s = some ((res, t'), s')) :
    Wires.Transfer serve data (view s) (view s') := by
  change (Program.expect (t.devices.lookup d) >>= fun dev =>
    hidWrite dev (0 :: data) >>= fun res => pure (res, t)).run h s = _ at hrun
  cases hdev : t.devices.lookup d with
  | none =>
    rw [hdev] at hrun
    cases hrun
  | some dev =>
    rw [hdev, Program.expect_some, Program.done_bind] at hrun
    cases hhandle : dev.deviceHandle with
    | none =>
      rw [hidWrite, hhandle] at hrun
      cases hrun
    | some handle =>
      simp only [hidWrite, hhandle, Program.expect_some, Program.done_bind, List.head?_cons,
        if_true, List.tail_cons] at hrun
      split at hrun
      · obtain ⟨-, rfl⟩ := Prod.mk.inj (Option.some.inj hrun)
        exact hh (.controlTransfer handle _ _ _ _ data 1000) s
      · obtain ⟨-, rfl⟩ := Prod.mk.inj (Option.some.inj hrun)
        exact hh (.interruptTransfer handle _ data 1000) s

/-- A read on `hid-libusb.c` takes what is queued, or it goes wrong. -/
theorem hidRead_takes (hh : Wired serve h view) {host : Endian} {d : Model.Handle} {length : Nat}
    {t t' : Stack} {s s' : σ} {r : Model.Received}
    (hrun : (hidLibusb host (.hidRead d length) t).run h s = some ((r, t'), s')) :
    Wires.Take length (view s) r (view s') := by
  change (Program.expect (t.devices.lookup d) >>= fun dev =>
    hidRead dev length >>= fun received => pure (received, t)).run h s = _ at hrun
  cases hdev : t.devices.lookup d with
  | none =>
    rw [hdev] at hrun
    cases hrun
  | some dev =>
    rw [hdev, Program.expect_some, Program.done_bind] at hrun
    cases hhandle : dev.deviceHandle with
    | none =>
      rw [hidRead, hhandle] at hrun
      cases hrun
    | some handle =>
      simp only [hidRead, hhandle, Program.expect_some, Program.done_bind] at hrun
      obtain ⟨hx, rfl⟩ := Prod.mk.inj (Option.some.inj hrun)
      obtain ⟨rfl, -⟩ := Prod.mk.inj hx
      exact hh (.takeReport handle length _) s

theorem take_takeD {α : Type} (x : α) {n m : Nat} (h : n ≤ m) (l : List α) :
    (l.takeD m x).take n = l.takeD n x := by
  induction n generalizing m l with
  | zero => rfl
  | succ n ih =>
    obtain ⟨m, rfl⟩ : ∃ k, m = k + 1 := ⟨m - 1, by omega⟩
    rw [List.takeD_succ, List.takeD_succ, List.take_succ_cons, ih (by omega)]

/-- A response that is accepted was given, and carries what the dongle said. -/
theorem reply_inputReport {q : Request} {response : Option Bytes} {bytes : Bytes}
    (h : reply q ⟨(min q.want (inputReport q.report response).length : Nat),
      (inputReport q.report response).take q.want⟩ = some bytes) :
    ∃ data, response = some data ∧ bytes = data.takeD (q.want - 2) 0 := by
  obtain ⟨path, report, want⟩ := q
  obtain ⟨hcount, -, hstatus, rfl⟩ := reply_eq_some.mp h
  have hwant : want ≤ 64 := by
    simp only [inputReport, List.takeD_length] at hcount
    omega
  have hself : ∀ l : Bytes, ((l.takeD 64 0).take want).takeD want 0 = l.takeD want 0 := by
    intro l
    rw [take_takeD 0 hwant, List.takeD_eq_take _ (Nat.le_of_eq (List.takeD_length _ _ _).symm),
      List.take_of_length_le (Nat.le_of_eq (List.takeD_length _ _ _))]
  simp only [inputReport, hself] at hstatus ⊢
  cases response with
  | none =>
    match want with
    | 0 | 1 | n + 2 => simp [List.takeD] at hstatus
  | some data =>
    match want with
    | 0 | 1 => simp [List.takeD] at hstatus
    | n + 2 => exact ⟨data, rfl, by simp [List.takeD]⟩

/-- The dongles, and the path that was claimed last. -/
def fleetOf (view : σ → Wires D) (x : Stack × σ) : Fleet D :=
  ⟨(view x.2).dongle, (view x.2).path⟩

theorem stackHost_opens (hh : Wired serve h view) (host : Endian) (path : String)
    (x : Stack × σ) :
    let y := opening (stackHost host h) path x
    (view y.2.2).dongle = (view x.2).dongle ∧
      ((view y.2.2).path = path ∨ (y.1 = none ∧ (view y.2.2).path = (view x.2).path)) ∧
      (y.1.isSome = true → (view y.2.2).queued = []) := by
  obtain ⟨t, s⟩ := x
  rcases answers_synced hh t (hidLibusb_opens host path t) s with hy | ⟨w', hQ, htracks, hdongle⟩
  · have hy : opening (stackHost host h) path (t, s) = (none, (t, s)) := hy
    rw [hy]
    exact ⟨rfl, .inr ⟨rfl, rfl⟩, nofun⟩
  · refine ⟨hdongle, ?_, fun hopen => htracks.queued (hQ.1 hopen).2⟩
    cases hr : (opening (stackHost host h) path (t, s)).1 with
    | none =>
      rcases hQ.2 with hpath | hpath
      · exact .inl (htracks.path.trans hpath)
      · exact .inr ⟨rfl, htracks.path.trans hpath⟩
    | some d => exact .inl (htracks.path.trans (hQ.1 (Option.isSome_iff_exists.mpr ⟨d, hr⟩)).1)

theorem stackHost_still (hh : Wired serve h view) (host : Endian) {c : Call}
    (hopen : ∀ path, c ≠ .hidOpenPath path) (hwrite : ∀ dev data, c ≠ .hidWrite dev data)
    (x : Stack × σ) :
    (view (stackHost host h c x).2.2).dongle = (view x.2).dongle ∧
      (view (stackHost host h c x).2.2).path = (view x.2).path := by
  have hsame : stackHost host h c x = (hidLibusb host).answers Bus.elsewhere h c x := by
    cases c with
    | hidWrite dev data => exact absurd rfl (hwrite dev data)
    | _ => rfl
  obtain ⟨t, s⟩ := x
  rw [hsame]
  rcases answers_synced hh t (hidLibusb_synced host hopen hwrite t) s with
    hy | ⟨w', hQ, htracks, hdongle⟩
  · rw [hy]
    exact ⟨rfl, rfl⟩
  · exact ⟨hdongle, htracks.path.trans hQ⟩

/-- A write goes to the dongle whose interface was claimed last, or nowhere. -/
theorem stackHost_writes (hh : Wired serve h view) (host : Endian) (d : Model.Handle)
    (report : Bytes) (x : Stack × σ) :
    let y := writing (stackHost host h) d report x
    (y.1 = -1 ∧ y.2 = x) ∨ ∃ data, report = 0 :: data ∧
      Wires.Transfer serve data (view x.2) (view y.2.2) := by
  obtain ⟨t, s⟩ := x
  by_cases hzero : report.head? = some 0
  · obtain ⟨data, rfl⟩ := List.head?_eq_some_iff.mp hzero
    have hsame : writing (stackHost host h) d (0 :: data) (t, s) =
        (hidLibusb host).answers Bus.elsewhere h (.hidWrite d (0 :: data)) (t, s) := by
      rw [writing, stackHost, unnumbered, if_pos hzero]
    cases hrun : (hidLibusb host (.hidWrite d (0 :: data)) t).run h s with
    | none =>
      rw [hsame, Layer.answers, hrun]
      exact .inl ⟨rfl, rfl⟩
    | some y =>
      obtain ⟨⟨res, t'⟩, s'⟩ := y
      rw [hsame, Layer.answers_eq hrun]
      exact .inr ⟨data, rfl, hidWrite_transfers hh hrun⟩
  · have hrefused : writing (stackHost host h) d report (t, s) = (-1, (t, s)) := if_neg hzero
    rw [hrefused]
    exact .inl ⟨rfl, rfl⟩

theorem stackHost_reads (hh : Wired serve h view) (host : Endian) (d : Model.Handle)
    (length : Nat) (x : Stack × σ) :
    let y := reading (stackHost host h) d length x
    Wires.Take length (view x.2) y.1 (view y.2.2) := by
  obtain ⟨t, s⟩ := x
  have hsame : reading (stackHost host h) d length (t, s) =
      (hidLibusb host).answers Bus.elsewhere h (.hidRead d length) (t, s) := rfl
  cases hrun : (hidLibusb host (.hidRead d length) t).run h s with
  | none =>
    rw [hsame, Layer.answers, hrun]
    exact .failed (show (-1 : Int) < 0 by decide)
  | some y =>
    obtain ⟨⟨r, t'⟩, s'⟩ := y
    rw [hsame, Layer.answers_eq hrun]
    exact hidRead_takes hh hrun

/-- An exchange that succeeded was served by the dongle at its path, and what it carries
is that dongle's answer. -/
theorem stackHost_honest (hh : Wired serve h view) (host : Endian) (q : Request)
    (x : Stack × σ) {bytes : Bytes}
    (ho : (converse (stackHost host h) q x).1.outcome q = .ok bytes) :
    (fleetOf view (converse (stackHost host h) q x).2).dongle q.path =
        (serve q.report ((fleetOf view x).dongle q.path)).2 ∧
      ∃ data, (serve q.report ((fleetOf view x).dongle q.path)).1 = some data ∧
        bytes = data.takeD (q.want - 2) 0 := by
  obtain ⟨d, x₁, count, x₂, received, x₃, hop, hw, hcount, hr, hreply⟩ := outcome_eq_ok.mp ho
  rw [converse_answered hop hw hcount hr]
  have hopens := stackHost_opens hh host q.path x
  have hwrites := stackHost_writes hh host d q.report x₁
  have hreads := stackHost_reads hh host d q.want x₂
  rw [hop] at hopens
  rw [hw] at hwrites
  rw [hr] at hreads
  obtain ⟨hdongle, hpath, hqueued⟩ := hopens
  have hpath : (view x₁.2).path = q.path := hpath.resolve_right (by simp)
  rcases hwrites with ⟨rfl, -⟩ | ⟨data, hreport, htransfer⟩
  · omega
  have hreceived : (0 : Int) ≤ received.count :=
    Int.le_trans (Int.natCast_nonneg _) (reply_eq_some.mp hreply).1
  obtain ⟨⟨response, rest, hqueue, rfl⟩, htaken⟩ := hreads.of_received hreceived
  obtain ⟨rfl, hmoved⟩ := htransfer.answer_of_queued (hqueued rfl) hqueue
  have hanswer : (view x₁.2).answer serve data = inputReport q.report
      (serve q.report ((view x.2).dongle q.path)).1 := by
    rw [Wires.answer, hreport, hpath, hdongle]
  rw [hanswer] at hreply
  refine ⟨?_, reply_inputReport hreply⟩
  have hclosed := (stackHost_still hh host (c := .hidClose (some d)) (by simp) (by simp) x₃).1
  refine (congrFun hclosed q.path).trans ?_
  rw [htaken, hmoved, ← hreport, hpath, hdongle]
  exact Function.update_self ..

/-- `hid-libusb.c` over a bus with dongles is a host with dongles. -/
theorem stackHost_populated (hh : Wired serve h view) (host : Endian) :
    Populated serve (stackHost host h) (fleetOf view) where
  still c x hc := by
    cases c with
    | hidOpenPath path => exact (stackHost_opens hh host path x).1
    | hidWrite dev data => exact absurd rfl (hc dev data)
    | _ => exact (stackHost_still hh host (by simp) (by simp) x).1
  opens path x := (stackHost_opens hh host path x).2.1
  holds c x hc := by
    cases c with
    | hidOpenPath path => exact absurd rfl (hc path)
    | hidWrite dev data =>
      rcases stackHost_writes hh host dev data x with ⟨-, hy⟩ | ⟨data, -, hy⟩
      · exact congrArg (fun x => (view x.2).path) hy
      · exact hy.path
    | _ => exact (stackHost_still hh host hc (by simp) x).2
  acts dev report x := by
    rcases stackHost_writes hh host dev report x with ⟨-, hy⟩ | ⟨data, rfl, hy⟩
    · exact .inl (congrArg (fun y => (fleetOf view y).dongle) hy)
    · exact hy.dongle
  honest q x bytes ho := stackHost_honest hh host q x ho

end

end Libfcd.Proofs
