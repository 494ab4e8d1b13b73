import Libfcd.Devices.Bus
import Libfcd.Proofs.Process

namespace Libfcd.Proofs
open Interaction Memory Hidapi Devices Process
open Model (Call)

/-- What a process has is what the code above was given, the lists in use, the device
that is open, and what was forgotten. -/
structure Holding (dev : Option HidDevice) (held : List (List DeviceInfo)) (f : Forgotten)
    (w : Ledger × Belongings) (t : Stack) (v : Process) : Prop where
  lists : t.lists = held.map (fun infos => ((deviceList infos).id, infos))
  lent : w.1.lists.map Lent.devs = held.map deviceList
  opened : w.1.opened = dev.map HidDevice.addr
  device : ∀ d, dev = some d → t.devices.lookup d.addr = some d
  process : v = (((plain w.2 t.usbContext).hold (held.map listBlocks).sum).forget f).take dev

/-- It is so for some device, lists and things forgotten. -/
def Holds (w : Ledger × Belongings) (t : Stack) (v : Process) : Prop :=
  ∃ dev held f, Holding dev held f w t v

/-- The rules for handles, lists, blocks and files together. -/
abbrev bothRules : Watch Call Call.Answer (Ledger × Belongings) :=
  Watch.both Ledger.watch Belongings.watch

section Calls

variable {host : Endian} {dev : Option HidDevice} {held : List (List DeviceInfo)} {f : Forgotten}
  {w : Ledger × Belongings} {t : Stack} {v : Process} {d : Model.Handle}

theorem plain_calm (w : Belongings) (usbContext : Bool) (blocks : Multiset Nat) (f : Forgotten) :
    (((plain w usbContext).hold blocks).forget f).Calm := rfl

theorem Holding.calm (h : Holding dev held f w t v) : v.Calm := by
  rw [h.process]
  exact (plain_calm ..).take dev

theorem Holding.contexts (h : Holding dev held f w t v) : v.contexts = t.usbContext.toNat := by
  rw [h.process]
  cases dev <;> rfl

theorem hidOpenPath_holding (path : String) (h : Holding dev held f w t v)
    (hw : w.1.opened = none) :
    Process.Keeps (hidLibusb host (.hidOpenPath path) t) v
      (fun x v' => Holds (⟨x.1, w.1.lists⟩, w.2) x.2 v') := by
  obtain rfl : dev = none := Option.map_eq_none_iff.mp (h.opened.symm.trans hw)
  refine (Process.hidOpenPath_keeps h.calm path h.contexts).bind ?_
  rintro ⟨dev, usbContext⟩ _ ⟨g, rfl⟩
  have hprocess : ((v.forget g).take dev).within usbContext =
      (((plain w.2 usbContext).hold (held.map listBlocks).sum).forget (g.add f)).take dev := by
    rw [h.process, take_within, ← forget_forget]
    rfl
  cases dev with
  | none => exact ⟨none, held, g.add f, h.lists, h.lent, rfl, nofun, hprocess⟩
  | some dev =>
    refine ⟨some dev, held, g.add f, h.lists, h.lent, rfl, fun d hd => ?_, hprocess⟩
    cases hd
    simp

theorem hidWrite_holding (data : Bytes) (h : Holding dev held f w t v) :
    Process.Keeps (hidLibusb host (.hidWrite d data) t) v (fun x v' => x.2 = t ∧ v' = v) := by
  refine Program.Keeps.expect_bind (fun dev _ => ?_) (fun _ => trivial)
  exact (Process.hidWrite_keeps h.calm dev data).bind (fun _ _ hv' => ⟨rfl, hv'⟩)

theorem hidRead_holding (length : Nat) (h : Holding dev held f w t v) :
    Process.Keeps (hidLibusb host (.hidRead d length) t) v (fun x v' => x.2 = t ∧ v' = v) := by
  refine Program.Keeps.expect_bind (fun dev _ => ?_) (fun _ => trivial)
  refine Program.Keeps.bind (P := fun _ v' => v' = v) ?_ (fun _ _ hv' => ⟨rfl, hv'⟩)
  refine Program.Keeps.expect_bind (fun handle _ => ?_) (fun _ => trivial)
  exact fun _ _ => ⟨v, congrArg some (settle_of_calm h.calm), rfl⟩

theorem hidClose_holding (h : Holding dev held f w t v) (hw : w.1.opened = some d) :
    Process.Keeps (hidLibusb host (.hidClose (some d)) t) v
      (fun x v' => Holds (⟨none, w.1.lists⟩, w.2) x.2 v') := by
  obtain ⟨dev, rfl, rfl⟩ := Option.map_eq_some_iff.mp (h.opened.symm.trans hw)
  change Process.Keeps (Program.expect (t.devices.lookup dev.addr) >>= fun dev' =>
    hidClose dev' >>= fun _ => pure ((), _)) v _
  rw [h.device dev rfl, Program.expect_some, Program.done_bind, h.process]
  refine (Process.hidClose_keeps (v := ((plain w.2 t.usbContext).hold _).forget f) rfl dev).bind ?_
  intro _ _ heq
  exact ⟨none, held, f, h.lists, h.lent, rfl, nofun, heq⟩

theorem hidEnumerate_holding (vendorId productId : UInt16) (h : Holding dev held f w t v) :
    Process.Keeps (hidLibusb host (.hidEnumerate vendorId productId) t) v (fun x v' =>
      Holds (⟨w.1.opened, ⟨x.1, none⟩ :: w.1.lists⟩, w.2) x.2 v') := by
  refine (Process.hidEnumerate_keeps h.calm host vendorId productId h.contexts).bind ?_
  rintro ⟨infos, usbContext⟩ _ rfl
  refine ⟨dev, infos :: held, f, ?_, ?_, h.opened, h.device, ?_⟩
  · rw [List.map_cons, ← h.lists]
  · rw [List.map_cons, List.map_cons, ← h.lent]
  · rw [h.process, ← take_hold, take_within, ← forget_hold, hold_hold, List.map_cons, List.sum_cons]
    rfl

theorem hidFreeEnumeration_holding (devs : Model.DeviceList) (h : Holding dev held f w t v)
    (hw : w.1.lists.head? = some ⟨devs, none⟩) :
    Process.Keeps (hidLibusb host (.hidFreeEnumeration devs) t) v (fun x v' =>
      Holds (⟨w.1.opened, w.1.lists.tail⟩, w.2) x.2 v') := by
  obtain ⟨rest, hrest⟩ := List.head?_eq_some_iff.mp hw
  have hlent := h.lent
  rw [hrest, List.map_cons] at hlent
  cases held with
  | nil => cases hlent
  | cons infos held =>
    obtain ⟨hdevs, htail⟩ := List.cons_eq_cons.mp hlent
    obtain rfl : devs = deviceList infos := hdevs
    have hlookup : t.lists.lookup (deviceList infos).id = some infos := by
      rw [h.lists]
      simp
    have hrestored : t.lists.eraseP (·.1 = (deviceList infos).id) =
        held.map (fun infos => ((deviceList infos).id, infos)) := by
      rw [h.lists]
      simp
    have hblocks : v = ((((plain w.2 t.usbContext).hold (held.map listBlocks).sum).forget f).take
        dev).hold (listBlocks infos) := by
      rw [h.process, ← take_hold, ← forget_hold, hold_hold, List.map_cons, List.sum_cons]
    change Process.Keeps (Program.expect (t.lists.lookup (deviceList infos).id) >>= fun infos =>
      hidFreeEnumeration infos >>= fun _ => pure ((), _)) v _
    rw [hlookup, Program.expect_some, Program.done_bind, hblocks]
    refine (Process.hidFreeEnumeration_keeps ((plain_calm ..).take dev) infos).bind ?_
    intro _ _ heq
    refine ⟨dev, held, f, hrestored, ?_, h.opened, h.device, heq⟩
    rw [hrest]
    exact htail

/-- What the code above was given stands beside the rest. -/
theorem beside_plain (dev : Option HidDevice) (f : Forgotten) (blocks : Multiset Nat) :
    ∃ rest : Multiset Nat, ∀ (w : Belongings) (usbContext : Bool),
      (((plain w usbContext).hold blocks).forget f).take dev =
        { (((plain .empty usbContext).hold blocks).forget f).take dev with
          belongings := ⟨rest + w.blocks, w.files⟩ } := by
  cases dev with
  | none =>
    refine ⟨f.devices + f.buffers + blocks, fun w usbContext => ?_⟩
    simp [Process.take, Process.forget, Process.hold, plain, add_assoc]
  | some dev =>
    refine ⟨{dev.addr} + (Forgotten.transfer dev.transfer).devices +
      (Forgotten.transfer dev.transfer).buffers + f.devices + f.buffers + blocks,
      fun w usbContext => ?_⟩
    simp [Process.take, Process.forget, Process.hold, plain, add_assoc]

/-- A call that has to do with neither handles nor lists passes through. -/
theorem pass_holding {c : Call} {r : c.Answer} {w' : Ledger × Belongings}
    (h : Holding dev held f w t v) (hw : bothRules w ⟨c, r⟩ = some w')
    (hhandles : w'.1.opened = w.1.opened)
    (hlists : w'.1.lists.map Lent.devs = w.1.lists.map Lent.devs) :
    ∃ v', Process.watch v ⟨.plain c, r⟩ = some v' ∧ Holding dev held f w' t v' := by
  obtain ⟨rest, hrest⟩ := beside_plain dev f (held.map listBlocks).sum
  have hbeside := Belongings.watch_beside (Watch.both_eq_some.mp hw).2 rest
  have hcalm := h.calm
  refine ⟨(((plain w'.2 t.usbContext).hold _).forget f).take dev, ?_, h.lists, hlists.trans h.lent,
    hhandles.trans h.opened, h.device, rfl⟩
  rw [h.process, hrest] at hcalm ⊢
  rw [hrest w'.2]
  refine (congrArg (Option.map _) hbeside).trans ?_
  rw [settle_of_calm hcalm]
  rfl

end Calls

/-- A call that neither makes nor frees a list leaves the lists as they are. -/
theorem watch_lent {c : Call} {r : c.Answer} {w w' : Ledger}
    (h : Ledger.watch w ⟨c, r⟩ = some w') (he : enumerated [⟨c, r⟩] = [])
    (hf : freed [⟨c, r⟩] = []) : w'.lists.map Lent.devs = w.lists.map Lent.devs := by
  have hkept : ∀ {p : Prop} [Decidable p] {u : Ledger}, Ledger.assert p u = some w' →
      u.lists.map Lent.devs = w.lists.map Lent.devs →
      w'.lists.map Lent.devs = w.lists.map Lent.devs := by
    intro p _ u hu hlists
    obtain ⟨-, rfl⟩ := Ledger.assert_eq_some.mp hu
    exact hlists
  cases c with
  | hidEnumerate vendorId productId => cases he
  | hidFreeEnumeration devs => cases hf
  | hidOpenPath path => exact hkept h rfl
  | hidWrite dev data => exact hkept h rfl
  | hidRead dev length => exact hkept h rfl
  | deviceInfo devs => exact hkept h rfl
  | hidClose dev =>
    cases dev with
    | none =>
      obtain rfl := Option.some.inj h
      rfl
    | some dev => exact hkept h rfl
  | strdup text entry =>
    cases entry with
    | none =>
      obtain rfl := Option.some.inj h
      rfl
    | some devs => exact hkept h rfl
  | mark m =>
    cases m with
    | enterApi => exact hkept h rfl
    | leaveApi => exact hkept h rfl
    | enterCallback path =>
      simp only [Ledger.watch] at h
      split at h
      · rename_i devs rest hlists
        exact hkept h (by simp [hlists])
      · cases h
    | leaveCallback path =>
      simp only [Ledger.watch] at h
      split at h
      · rename_i devs running rest hlists
        exact hkept h (by simp [hlists])
      · cases h
  | _ =>
    obtain rfl := Option.some.inj h
    rfl

/-- A call that changes handles and lists under a condition, and no blocks or files. -/
theorem keeps_of_assert {w : Ledger × Belongings} {v : Process} {c : Call} {P : Prop}
    [Decidable P] (next : c.Answer → Ledger) {p : Usb (c.Answer × Stack)}
    (hledger : ∀ r, Ledger.watch w.1 ⟨c, r⟩ = Ledger.assert P (next r))
    (hbelongings : ∀ r, Belongings.watch w.2 ⟨c, r⟩ = some w.2)
    (hp : Process.Keeps p v (fun x v' => Holds (next x.1, w.2) x.2 v')) :
    Process.Keeps p v (fun x v' => ∀ w', bothRules w ⟨c, x.1⟩ = some w' → Holds w' x.2 v') := by
  refine hp.mono (fun x v' hx w' hw' => ?_)
  obtain ⟨h₁, h₂⟩ := Watch.both_eq_some.mp hw'
  obtain ⟨-, hnext⟩ := Ledger.assert_eq_some.mp ((hledger x.1).symm.trans h₁)
  have hsame := Option.some.inj ((hbelongings x.1).symm.trans h₂)
  rwa [hnext, hsame] at hx

/-- The rules for handles, lists, blocks and files above are those for the blocks and
files of the process below. -/
theorem hidLibusb_holds (host : Endian) : (hidLibusb host).Carries bothRules Process.terms
    Holds := by
  rintro c t w v ⟨hidDev, held, f, h⟩ hall
  have hrules : ∀ {r : c.Answer} {w' : Ledger × Belongings}, bothRules w ⟨c, r⟩ = some w' →
      Ledger.watch w.1 ⟨c, r⟩ = some w'.1 ∧ Belongings.watch w.2 ⟨c, r⟩ = some w'.2 :=
    Watch.both_eq_some.mp
  cases c with
  | hidOpenPath path =>
    obtain ⟨w', hw'⟩ := hall none
    refine keeps_of_assert (c := .hidOpenPath path) (fun dev => ⟨dev, w.1.lists⟩)
      (fun _ => rfl) (fun _ => rfl) ?_
    exact hidOpenPath_holding path h (Ledger.assert_eq_some.mp (hrules hw').1).1
  | hidWrite dev data =>
    refine keeps_of_assert (fun _ => w.1) (fun _ => rfl) (fun _ => rfl) ?_
    refine (hidWrite_holding data h).mono (fun x v' hx => ?_)
    obtain ⟨rfl, rfl⟩ := hx
    exact ⟨hidDev, held, f, h⟩
  | hidRead dev length =>
    refine keeps_of_assert (fun _ => w.1) (fun _ => rfl) (fun _ => rfl) ?_
    refine (hidRead_holding length h).mono (fun x v' hx => ?_)
    obtain ⟨rfl, rfl⟩ := hx
    exact ⟨hidDev, held, f, h⟩
  | hidClose dev =>
    cases dev with
    | none =>
      refine keeps_of_assert (P := True) (fun _ => w.1) (fun _ => rfl) (fun _ => rfl) ?_
      exact ⟨hidDev, held, f, h⟩
    | some dev =>
      obtain ⟨w', hw'⟩ := hall ()
      refine keeps_of_assert (fun _ => ⟨none, w.1.lists⟩) (fun _ => rfl) (fun _ => rfl) ?_
      exact hidClose_holding h (Ledger.assert_eq_some.mp (hrules hw').1).1
  | hidEnumerate vendorId productId =>
    refine keeps_of_assert (c := .hidEnumerate vendorId productId) (P := True)
      (fun devs => ⟨w.1.opened, ⟨devs, none⟩ :: w.1.lists⟩) (fun _ => rfl) (fun _ => rfl) ?_
    exact hidEnumerate_holding vendorId productId h
  | hidFreeEnumeration devs =>
    obtain ⟨w', hw'⟩ := hall ()
    refine keeps_of_assert (fun _ => ⟨w.1.opened, w.1.lists.tail⟩) (fun _ => rfl) (fun _ => rfl) ?_
    exact hidFreeEnumeration_holding devs h (Ledger.assert_eq_some.mp (hrules hw').1).1
  | _ =>
    intro r _
    obtain ⟨w', hw'⟩ := hall r
    obtain ⟨v', hv', h'⟩ := pass_holding h hw' (watch_opened (hrules hw').1 rfl rfl)
      (watch_lent (hrules hw').1 rfl rfl)
    refine ⟨v', hv', fun w'' hw'' => ?_⟩
    obtain rfl := Option.some.inj (hw'.symm.trans hw'')
    exact ⟨hidDev, held, f, h'⟩

/-- The two programs of the repository. -/
inductive Tool (host : Endian) : Model.Hid Int → Prop where
  | fcdFlash (getoptLong : List String → List Model.Parsed × List String) (argv : List String) :
    Tool host (Model.fcdFlashMain host getoptLong argv)
  | fcd (query : String → Bytes) : Tool host (Model.fcdMain host query)

theorem Tool.balanced {host : Endian} {p : Model.Hid Int} (h : Tool host p) : Balanced p := by
  cases h with
  | fcdFlash getoptLong argv => exact Balanced.fcdFlashMain host getoptLong argv
  | fcd query => exact Balanced.fcdMain host query

theorem Tool.even {host : Endian} {p : Model.Hid Int} (h : Tool host p) : Belongings.Even p := by
  cases h with
  | fcdFlash getoptLong argv => exact Belongings.Even.fcdFlashMain host getoptLong argv
  | fcd query => exact Belongings.Even.fcdMain host query

/-- The transfers of the handles that are open. -/
def Books.transfers (u : Books) : Multiset Nat :=
  (u.handles.filterMap OpenHandle.transfer : List Nat)

theorem amend_transfers (u : Books) {f : OpenHandle → OpenHandle}
    (hf : ∀ o, (f o).transfer = o.transfer) : (u.amend f).transfers = u.transfers := by
  unfold Books.amend
  split
  · rfl
  · rename_i o rest hhandles
    simp [Books.transfers, hhandles, hf, List.filterMap_cons]

/-- The transfers of the newest handle and of those before it. -/
theorem transfers_of_head {u : Books} {p : OpenHandle → Bool} (h : u.handles.head?.any p = true) :
    ∃ o rest, u.handles = o :: rest ∧ p o = true ∧ u.transfers =
      (o.transfer.toList : Multiset Nat) + (rest.filterMap OpenHandle.transfer : List Nat) := by
  cases hhandles : u.handles with
  | nil => simp [hhandles] at h
  | cons o rest =>
    refine ⟨o, rest, rfl, by simpa [hhandles] using h, ?_⟩
    cases htransfer : o.transfer <;> simp [Books.transfers, hhandles, htransfer]

/-- Both books tell the same transfers. -/
theorem watch_transfers {e : UsbHappening} {v v' : Process} {w w' : View}
    (hv : Process.watch v e = some v') (hw : View.watch w e = some w')
    (h : v.transfers = w.books.transfers) : v'.transfers = w'.books.transfers := by
  obtain ⟨c, r⟩ := e
  cases c with
  | allocTransfer =>
    obtain rfl := Option.some.inj hv
    obtain ⟨hhead, rfl⟩ := View.require_eq_some.mp hw
    obtain ⟨o, rest, hhandles, ho, htransfers⟩ := transfers_of_head hhead
    have hnone : o.transfer = none := by simp_all
    change _ + v.transfers = _
    rw [h, htransfers, hnone]
    cases r <;> simp [Books.transfers, Books.amend, hhandles]
  | freeTransfer transfer =>
    obtain ⟨hhead, rfl⟩ := View.require_eq_some.mp hw
    obtain ⟨o, rest, hhandles, ho, htransfers⟩ := transfers_of_head hhead
    have hsome : o.transfer = some transfer := by simp_all
    simp only [Process.watch] at hv
    split at hv
    · obtain rfl := Option.some.inj hv
      change v.transfers.erase transfer = _
      rw [h, htransfers, hsome]
      simp [Books.transfers, Books.amend, hhandles]
    · cases hv
  | libusbOpen dev =>
    obtain rfl := Option.some.inj hv
    cases r with
    | none =>
      obtain ⟨-, rfl⟩ := View.require_eq_some.mp hw
      exact h
    | some handle =>
      obtain ⟨-, rfl⟩ := View.require_eq_some.mp hw
      exact h
  | libusbClose handle =>
    obtain rfl := Option.some.inj hv
    obtain ⟨hhead, rfl⟩ := View.require_eq_some.mp hw
    obtain ⟨o, rest, hhandles, ho, htransfers⟩ := transfers_of_head hhead
    have hnone : o.transfer = none := by simp_all
    change v.transfers = _
    rw [h, htransfers, hnone]
    simp [Books.transfers, hhandles]
  | claimInterface handle interface =>
    obtain rfl := Option.some.inj hv
    obtain ⟨-, rfl⟩ := View.require_eq_some.mp hw
    split
    · exact h
    · exact h.trans (Eq.symm (by exact amend_transfers _ (fun _ => rfl)))
  | startReadThread handle | stopReadThread handle | releaseInterface handle interface =>
    obtain rfl := Option.some.inj hv
    obtain ⟨-, rfl⟩ := View.require_eq_some.mp hw
    exact h.trans (Eq.symm (by exact amend_transfers _ (fun _ => rfl)))
  | calloc record =>
    obtain rfl := Option.some.inj hw
    cases record with
    | hidDevice =>
      obtain rfl := Option.some.inj hv
      exact h
    | deviceInfo =>
      obtain rfl := Option.some.inj hv
      exact h
  | libusbInit =>
    obtain rfl := Option.some.inj hv
    obtain rfl := Option.some.inj hw
    refine Eq.trans ?_ h
    unfold Process.setUp
    split <;> rfl
  | iconvClose ic =>
    obtain rfl := Option.some.inj hw
    simp only [Process.watch] at hv
    split at hv
    · obtain rfl := Option.some.inj hv
      exact h
    · cases hv
  | plain c =>
    obtain rfl := Option.some.inj hw
    obtain ⟨belongings, -, rfl⟩ := Option.map_eq_some_iff.mp hv
    exact h
  | getDeviceList | malloc | getUsbCodeForCurrentLocale | iconvOpen | wcsdup =>
    obtain rfl := Option.some.inj hv
    obtain rfl := Option.some.inj hw
    exact h
  | getDeviceDescriptor dev | getActiveConfigDescriptor dev | getConfigDescriptor dev index =>
    obtain rfl := Option.some.inj hv
    obtain ⟨-, rfl⟩ := View.require_eq_some.mp hw
    simp only [View.configured_books]
    exact h
  | _ =>
    obtain rfl := Option.some.inj hv
    obtain ⟨-, rfl⟩ := View.require_eq_some.mp hw
    exact h

theorem watchAll_transfers {es : List UsbHappening} {v v' : Process} {w w' : View}
    (hv : es.foldlM Process.watch v = some v') (hw : es.foldlM View.watch w = some w')
    (h : v.transfers = w.books.transfers) : v'.transfers = w'.books.transfers := by
  induction es generalizing v w with
  | nil =>
    obtain rfl := Option.some.inj hv
    obtain rfl := Option.some.inj hw
    exact h
  | cons e es ih =>
    rw [List.foldlM_cons] at hv hw
    obtain ⟨v₁, hv₁, hv⟩ := Option.bind_eq_some_iff.mp hv
    obtain ⟨w₁, hw₁, hw⟩ := Option.bind_eq_some_iff.mp hw
    exact ih hv hw (watch_transfers hv₁ hw₁ h)

/-- A run of either tool on `hid-libusb.c`, whatever libusb, the C library and the
dongles do: nothing is freed or closed that is not there, and at the end every file and
every converter is closed, libusb was set up no more than once, and every block has been
freed but one for each open for which libusb could not be set up, and the buffers of
transfers that are still there. Where devices can be told apart no transfer is, and every
handle, claim, thread, list and descriptor of libusb has been given back as well. -/
theorem tools_give_back {σ : Type} (host : Endian) (h : UsbHost σ) (s : σ) {tool : Model.Hid Int}
    (htool : Tool host tool) :
    let p := (hidLibusb host).implement tool Stack.start
    let es := Program.events h p s
    ∃ v : Process, es.foldlM Process.watch .empty = some v ∧
      (∀ status stack t, Program.run h p s = some ((status, stack), t) →
        v.converters = 0 ∧ v.contexts ≤ 1 ∧ ∃ buffers : Multiset Nat,
          v.belongings = ⟨v.lost + buffers, 0⟩ ∧ buffers.card ≤ v.transfers.card) ∧
      ((∀ res : Int, ⟨.libusbInit, res⟩ ∈ es → res = 0) → v.lost = 0) ∧
      ((∀ call s, Distinct ⟨call, (h call s).1⟩) →
        ∃ view : View, es.foldlM View.watch .empty = some view ∧
          ∀ status stack t, Program.run h p s = some ((status, stack), t) →
            (∃ sent, view.books = .idle sent) ∧ v.transfers = 0 ∧ v.belongings = ⟨v.lost, 0⟩) := by
  intro p es
  have hledger := htool.balanced .empty rfl
  have hkeeps := (hidLibusb_holds host).keeps trivial (hledger.both (htool.even .empty trivial))
    (show Holds (.empty, .empty) Stack.start .empty from
      ⟨none, [], .nothing, rfl, rfl, rfl, nofun, by rw [forget_nothing]; rfl⟩)
  obtain ⟨v, hfold, hend, -⟩ := hkeeps.sound (h := h) (fun _ _ => trivial) s
  have hleft : ∀ status stack t, Program.run h p s = some ((status, stack), t) →
      v.converters = 0 ∧ v.contexts ≤ 1 ∧ ∃ buffers : Multiset Nat,
        v.belongings = ⟨v.lost + buffers, 0⟩ ∧ buffers.card ≤ v.transfers.card := by
    intro status stack t hrun
    obtain ⟨⟨_, _⟩, ⟨rfl, rfl⟩, dev, held, f, hholding⟩ := hend _ t hrun
    obtain rfl : held = [] := List.map_eq_nil_iff.mp hholding.lent.symm
    obtain rfl : dev = none := Option.map_eq_none_iff.mp hholding.opened.symm
    have hv : v = (plain .empty stack.usbContext).forget f := by
      simpa [Process.take] using hholding.process
    rw [hv]
    refine ⟨rfl, Bool.toNat_le _, f.buffers, ?_, ?_⟩
    · simp [plain, Process.forget, Process.hold, Belongings.empty]
    · simpa [plain, Process.forget] using f.paired
  refine ⟨v, hfold, hleft, Process.lost_of_setUp hfold, fun hh => ?_⟩
  have hobjects := (hidLibusb_carries host).keeps trivial hledger
    (show Backed .empty Stack.start .empty from ⟨[], rfl⟩)
  obtain ⟨view, hfold', hidle, -⟩ := hobjects.sound (h := h) hh s
  refine ⟨view, hfold', fun status stack t hrun => ?_⟩
  obtain ⟨w, rfl, sent, hbooks⟩ := hidle _ t hrun
  have htransfers : v.transfers = 0 := by
    rw [watchAll_transfers hfold hfold' rfl, hbooks]
    rfl
  obtain ⟨-, -, buffers, hbelongings, hcard⟩ := hleft status stack t hrun
  rw [htransfers, Multiset.card_zero, Nat.le_zero, Multiset.card_eq_zero] at hcard
  rw [hcard, add_zero] at hbelongings
  exact ⟨⟨sent, hbooks⟩, htransfers, hbelongings⟩

/-- `fcd-flash -e` with one dongle on the bus: libusb is set up, and nothing is left. -/
theorem tools_give_back_erase :
    let p := (hidLibusb .little).implement
      (Model.fcdFlashMain .little (fun _ => ([⟨.erase, none⟩], [])) []) Stack.start
    let es := Program.events (Bus.host (Boot.serve id)) p ⟨oneBlock, []⟩
    (Program.run (Bus.host (Boot.serve id)) p ⟨oneBlock, []⟩).map (fun r => r.1.1) = some 0 ∧
      ∃ v : Process, es.foldlM Process.watch .empty = some v ∧ v.belongings = .empty ∧
        v.transfers = 0 ∧ v.converters = 0 ∧
        ∃ view : View, es.foldlM View.watch .empty = some view ∧
          ∃ sent, view.books = .idle sent := by
  intro p es
  obtain ⟨v, hv, hleft, hlost, hobjects⟩ := tools_give_back .little (Bus.host (Boot.serve id))
    ⟨oneBlock, []⟩ (.fcdFlash (fun _ => ([⟨.erase, none⟩], [])) [])
  obtain ⟨view, hview, hend⟩ := hobjects (Bus.distinct _)
  have hstatus : (Program.run (Bus.host (Boot.serve id)) p ⟨oneBlock, []⟩).map (fun r => r.1.1) =
      some 0 := rfl
  obtain ⟨⟨⟨status, stack⟩, t⟩, hrun, -⟩ := Option.map_eq_some_iff.mp hstatus
  obtain ⟨hidle, htransfers, hblocks⟩ := hend status stack t hrun
  obtain ⟨hconverters, -, -⟩ := hleft status stack t hrun
  have hsetUp : ∀ res : Int, ⟨.libusbInit, res⟩ ∈ es → res = 0 := fun _ hres =>
    Program.answer_of_mem_events (P := fun res : Int => res = 0) (fun _ => rfl) hres
  rw [hlost hsetUp] at hblocks
  exact ⟨hstatus, v, hv, hblocks, htransfers, hconverters, view, hview, hidle⟩

end Libfcd.Proofs
