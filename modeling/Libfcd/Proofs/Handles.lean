import Libfcd.Devices.Bootloader
import Libfcd.Interaction.Watch
import Libfcd.Model.Clients

namespace Libfcd.Proofs
open Interaction Memory Model Devices

/-- A list that has not been freed yet, with the path of it that a callback is
running on, if one is. -/
structure Lent where
  devs : DeviceList
  running : Option String
  deriving DecidableEq, Repr

/-- The HID handle that is open, if any, and the lists in use, newest first. -/
structure Ledger where
  opened : Option Handle
  lists : List Lent
  deriving DecidableEq, Repr

namespace Ledger

def empty : Ledger := ⟨none, []⟩

/-- The same under a condition, and nothing without it. -/
def assert (c : Prop) [Decidable c] (w : Ledger) : Option Ledger := if c then some w else none

/-- The rules for handles and lists. One handle at a time; reads, writes and the
close are made on just that one, and it is closed when a call of the library or
a callback begins or ends. Lists are freed newest first, and not while a
callback still has a path of theirs. -/
def watch : Watch Call Call.Answer Ledger := fun w e =>
  match e with
  | ⟨.hidOpenPath _, dev⟩ => assert (w.opened = none) ⟨dev, w.lists⟩
  | ⟨.hidWrite dev _, _⟩ => assert (w.opened = some dev) w
  | ⟨.hidRead dev _, _⟩ => assert (w.opened = some dev) w
  | ⟨.hidClose none, _⟩ => some w
  | ⟨.hidClose (some dev), _⟩ => assert (w.opened = some dev) ⟨none, w.lists⟩
  | ⟨.hidEnumerate .., devs⟩ => some ⟨w.opened, ⟨devs, none⟩ :: w.lists⟩
  | ⟨.deviceInfo devs, _⟩ => assert (w.lists.head? = some ⟨devs, none⟩) w
  | ⟨.strdup s (some devs), _⟩ =>
    assert (w.lists.head? = some ⟨devs, none⟩ ∧ some s ∈ devs.paths) w
  | ⟨.hidFreeEnumeration devs, _⟩ =>
    assert (w.lists.head? = some ⟨devs, none⟩) ⟨w.opened, w.lists.tail⟩
  | ⟨.mark .enterApi, _⟩ => assert (w.opened = none) w
  | ⟨.mark .leaveApi, _⟩ => assert (w.opened = none) w
  | ⟨.mark (.enterCallback path), _⟩ =>
    match w.lists with
    | ⟨devs, none⟩ :: rest =>
      assert (w.opened = none ∧ some path ∈ devs.paths) ⟨none, ⟨devs, some path⟩ :: rest⟩
    | _ => none
  | ⟨.mark (.leaveCallback path), _⟩ =>
    match w.lists with
    | ⟨devs, some running⟩ :: rest =>
      assert (w.opened = none ∧ running = path) ⟨none, ⟨devs, none⟩ :: rest⟩
    | _ => none
  | _ => some w

theorem assert_pos {c : Prop} [Decidable c] (hc : c) (w : Ledger) : assert c w = some w := if_pos hc

theorem assert_eq_some {c : Prop} [Decidable c] {w w' : Ledger} :
    assert c w = some w' ↔ c ∧ w = w' := by
  simp [assert]

end Ledger

open Ledger

/-- No handle is open before nor after, and the lists in use stay the same. -/
abbrev Balanced {α : Type} (p : Hid α) : Prop :=
  Program.Neutral Ledger.watch (fun w => w.opened = none) p

namespace Balanced

variable {α : Type}

theorem usleep (us : UInt32) : Balanced (Model.usleep us) :=
  .perform (fun _ _ _ => rfl)

theorem free (block : Nat) : Balanced (Model.free block) :=
  .perform (fun _ _ _ => rfl)

/-- The middle of an exchange, in which the handle is open. -/
theorem sendReceive (dev : Handle) (cmd : UInt8) (buffer : Buffer) (length : Nat)
    (odata : Option Buffer) (olen : UInt8) :
    Program.Neutral Ledger.watch (fun w => w.opened = some dev)
      (Model.sendReceive dev cmd buffer length odata olen) := by
  apply (Program.Neutral.expect _).bind
  intro report
  apply (Program.Neutral.perform (fun w _ hw => assert_pos hw w)).bind
  intro written
  split
  · apply (Program.Neutral.expect _).bind
    intro _
    apply (Program.Neutral.perform (fun w _ hw => assert_pos hw w)).bind
    intro received
    apply (Program.Neutral.expect _).bind
    intro buffer
    split
    · split
      · exact (Program.Neutral.expect _).bind (fun _ => .done _)
      · exact .done _
    · exact .done _
  · exact .done _

theorem fcdIo (dev : Option Fcd) (cmd iskip : UInt8) (idata : Option Bytes) (ilen : UInt8)
    (odata : Option Buffer) (olen : UInt8) :
    Balanced (Model.fcdIo dev cmd iskip idata ilen odata olen) := by
  cases dev with
  | none => exact .done _
  | some dev =>
    rw [Model.fcdIo]
    split
    · exact .done _
    · simp only [hidOpenPath_bind]
      rintro ⟨opened, lists⟩ rfl handle
      refine ⟨⟨handle, lists⟩, rfl, ?_⟩
      cases handle with
      | none => rfl
      | some hidDev =>
        apply Program.Obeys.bind (Program.Neutral.expect _ _ rfl)
        rintro buffer _ rfl
        apply (sendReceive hidDev cmd buffer _ odata _ _ rfl).bind
        rintro ⟨ok, odata⟩ _ rfl
        intro _
        exact ⟨⟨none, lists⟩, assert_pos rfl _, rfl⟩

theorem fcdGet (dev : Option Fcd) (cmd : UInt8) (data : Option Buffer) (len : UInt8) :
    Balanced (Model.fcdGet dev cmd data len) :=
  fcdIo dev cmd 0 none 0 data len

theorem fcdSet (dev : Option Fcd) (cmd : UInt8) (data : Option Bytes) (len : UInt8) :
    Balanced (Model.fcdSet dev cmd data len) :=
  (fcdIo dev cmd 0 data len none 0).bind (fun _ => .done _)

theorem fcdClose (dev : Option Fcd) : Balanced (Model.fcdClose dev) := by
  cases dev with
  | none => exact .done _
  | some dev => exact (free _).bind (fun _ => free _)

theorem keepPath (addr : Nat) (path : Option (String × Option Nat)) :
    Balanced (Model.keepPath addr path) := by
  rcases path with _ | ⟨path, _ | pathAddr⟩
  · exact (free _).bind (fun _ => .done _)
  · exact (free _).bind (fun _ => .done _)
  · exact .done _

/-- What holds while a list is gone through between callbacks. -/
def Browsing (devs : DeviceList) (w : Ledger) : Prop :=
  w.opened = none ∧ w.lists.head? = some ⟨devs, none⟩

theorem deviceInfo (devs : DeviceList) :
    Program.Neutral Ledger.watch (Browsing devs) (Model.deviceInfo devs) :=
  .perform (fun w _ hw => assert_pos hw.2 w)

/-- A list is made, gone through and freed. -/
theorem enumerate {β : Type} {browse : DeviceList → Hid β} {finish : β → Hid α}
    (hbrowse : ∀ devs, Program.Neutral Ledger.watch (Browsing devs) (browse devs))
    (hfinish : ∀ r, Balanced (finish r)) :
    Balanced (do
      let devs ← hidEnumerate fcdUsbVid fcdUsbPid
      let r ← browse devs
      hidFreeEnumeration devs
      finish r) := by
  rintro ⟨opened, lists⟩ rfl devs
  refine ⟨⟨none, ⟨devs, none⟩ :: lists⟩, rfl, (hbrowse devs _ ⟨rfl, rfl⟩).bind ?_⟩
  rintro r _ rfl
  intro _
  exact ⟨⟨none, lists⟩, assert_pos rfl _, hfinish r _ rfl⟩

theorem copyFirst (devs : DeviceList) :
    Program.Neutral Ledger.watch (Browsing devs) (Model.copyFirst devs) := by
  unfold Model.copyFirst
  split
  · rename_i first rest hpaths
    apply (deviceInfo devs).bind
    intro _
    have hmem : some first ∈ devs.paths := by simp [hpaths]
    exact (Program.Neutral.perform (fun w _ hw => assert_pos ⟨hw.2, hmem⟩ w)).bind
      (fun _ => .done _)
  · exact (deviceInfo devs).bind (fun _ => .done _)
  · exact .done _

theorem fcdOpen (path : Option String) : Balanced (Model.fcdOpen path) := by
  apply (Program.Neutral.perform (fun _ _ _ => rfl)).bind
  intro addr
  cases addr with
  | none => exact .done _
  | some addr =>
    cases path with
    | none => exact enumerate copyFirst (fun kept => keepPath addr kept)
    | some path =>
      simp only [hidOpenPath_bind]
      rintro ⟨opened, lists⟩ rfl hidDev
      refine ⟨⟨hidDev, lists⟩, rfl, ?_⟩
      cases hidDev with
      | none => exact fun _ => ⟨_, rfl, keepPath addr none _ rfl⟩
      | some dev =>
        exact fun copy => ⟨_, rfl, fun _ =>
          ⟨⟨none, lists⟩, assert_pos rfl _, keepPath addr (some (path, copy)) _ rfl⟩⟩

theorem visitEach {γ : Type} {fn : String → γ → Hid (Int × γ)} {devs : DeviceList}
    (hfn : ∀ path context, some path ∈ devs.paths →
      Program.Neutral Ledger.watch (Browsing devs) (fn path context))
    (paths : List (Option String)) (hpaths : ∀ path ∈ paths, path ∈ devs.paths) (context : γ) :
    Program.Neutral Ledger.watch (Browsing devs) (Model.visitEach fn devs paths context) := by
  induction paths generalizing context with
  | nil => exact .done _
  | cons path rest ih =>
    refine (deviceInfo devs).bind (fun _ => .bind ?_ (fun r => ?_))
    · cases path with
      | none => exact .done _
      | some path => exact hfn path context (hpaths _ (by simp))
    · dsimp only
      split
      · exact .done _
      · exact (deviceInfo devs).bind (fun _ => ih (fun path hp => hpaths path (by simp [hp])) _)

theorem fcdForEach {γ : Type} {fn : String → γ → Hid (Int × γ)}
    (hfn : ∀ devs path context, some path ∈ devs.paths →
      Program.Neutral Ledger.watch (Browsing devs) (fn path context)) (context : γ) :
    Balanced (Model.fcdForEach fn context) :=
  enumerate (fun devs => visitEach (hfn devs) devs.paths (fun _ hp => hp) context)
    (fun _ => .done _)

theorem msSleep (ms : UInt32) : Balanced (Model.msSleep ms) := by
  refine (Program.Neutral.loop (fun t => ?_) _ _ _ _).bind (fun t => ?_)
  · exact (usleep _).bind (fun _ => (usleep _).bind (fun _ => .done _))
  · cases t with
    | inl e => exact nomatch e
    | inr t => exact usleep _

theorem fcdReset (path : String) (context : UInt8) : Balanced (Model.fcdReset path context) := by
  apply (fcdOpen _).bind
  intro dev
  cases dev with
  | none => exact .done _
  | some dev => exact (fcdSet _ _ _ _).bind (fun _ => (fcdClose _).bind (fun _ => .done _))

theorem resetAll (context : UInt8) (delayMs : UInt32) : Balanced (do
    let _ ← Model.fcdForEach Model.fcdReset context
    Model.msSleep delayMs) :=
  (fcdForEach (fun _ path context _ w hw => fcdReset path context w hw.1) context).bind
    (fun _ => msSleep delayMs)

theorem fcdQuery (dev : Option Fcd) (str : Option Buffer) (len : Int32) :
    Balanced (Model.fcdQuery dev str len) := by
  apply (fcdGet _ _ _ _).bind
  intro x
  split
  · exact .done _
  · exact (Program.Neutral.expect _).bind (fun _ => .done _)

theorem fcdBlGetAddressRange (host : Endian) (dev : Option Fcd) :
    Balanced (Model.fcdBlGetAddressRange host dev) := by
  apply (fcdGet _ _ _ _).bind
  intro x
  split
  · exact .done _
  · exact (Program.Neutral.expect _).bind (fun _ => .done _)

theorem fcdBlReadBlock (dev : Option Fcd) (block : Option Buffer) :
    Balanced (Model.fcdBlReadBlock dev block) := fcdGet dev _ block 48

theorem fcdBlWriteBlock (dev : Option Fcd) (block : Option Bytes) :
    Balanced (Model.fcdBlWriteBlock dev block) :=
  (fcdIo _ _ _ _ _ _ _).bind (fun _ => .done _)

theorem fcdBlFlashWrite (host : Endian) (dev : Option Fcd) (data : Bytes) (size : UInt32) :
    Balanced (Model.fcdBlFlashWrite host dev data size) := by
  apply (fcdBlGetAddressRange host dev).bind
  intro x
  split
  · exact .done _
  · split
    · exact .done _
    · split
      · exact .done _
      · apply (fcdSet _ _ _ _).bind
        intro x
        split
        · exact .done _
        · refine (Program.Neutral.loop (fun addr => ?_) _ _ _ _).bind (fun left => ?_)
          · apply (fcdBlWriteBlock _ _).bind
            intro x
            split
            · exact .done _
            · exact .done _
          · split
            · exact .done _
            · exact .done _

theorem fcdBlFlashVerify (host : Endian) (dev : Option Fcd) (data : Bytes) (size : UInt32) :
    Balanced (Model.fcdBlFlashVerify host dev data size) := by
  apply (fcdBlGetAddressRange host dev).bind
  intro x
  split
  · exact .done _
  · split
    · exact .done _
    · split
      · exact .done _
      · apply (fcdSet _ _ _ _).bind
        intro x
        split
        · exact .done _
        · refine (Program.Neutral.loop (fun addr => ?_) _ _ _ _).bind (fun left => ?_)
          · apply (fcdBlReadBlock _ _).bind
            intro x
            split
            · exact .done _
            · apply (Program.Neutral.expect _).bind
              intro _
              apply (Program.Neutral.expect _).bind
              intro _
              split
              · exact .done _
              · exact .done _
          · split
            · exact .done _
            · exact .done _

theorem fcdSetDcCorrection (host : Endian) (dev : Option Fcd) (i q : Int32) :
    Balanced (Model.fcdSetDcCorrection host dev i q) := by
  unfold Model.fcdSetDcCorrection
  dsimp only
  split
  · exact .done _
  · exact fcdSet _ _ _ _

theorem fcdGetDcCorrection (host : Endian) (dev : Option Fcd) :
    Balanced (Model.fcdGetDcCorrection host dev) := by
  apply (fcdGet _ _ _ _).bind
  intro x
  split
  · exact .done _
  · exact (Program.Neutral.expect _).bind (fun _ => .done _)

theorem fcdSetIqCorrection (host : Endian) (dev : Option Fcd) (phase : Int32) (gain : UInt32) :
    Balanced (Model.fcdSetIqCorrection host dev phase gain) := by
  unfold Model.fcdSetIqCorrection
  dsimp only
  split
  · exact .done _
  · exact fcdSet _ _ _ _

theorem fcdGetIqCorrection (host : Endian) (dev : Option Fcd) :
    Balanced (Model.fcdGetIqCorrection host dev) := by
  apply (fcdGet _ _ _ _).bind
  intro x
  split
  · exact .done _
  · exact (Program.Neutral.expect _).bind (fun _ => .done _)

theorem fcdGetFrequencyHz (host : Endian) (dev : Option Fcd) :
    Balanced (Model.fcdGetFrequencyHz host dev) := by
  apply (fcdGet _ _ _ _).bind
  intro x
  split
  · exact .done _
  · exact (Program.Neutral.expect _).bind (fun _ => .done _)

theorem fcdSetValue (dev : Option Fcd) (id : UInt32) (value : UInt8) :
    Balanced (Model.fcdSetValue dev id value) := by
  unfold Model.fcdSetValue
  split
  · exact .done _
  · exact fcdSet _ _ _ _

theorem fcdGetValue (dev : Option Fcd) (id : UInt32) (value : Option UInt8) :
    Balanced (Model.fcdGetValue dev id value) := by
  unfold Model.fcdGetValue
  split
  · exact .done _
  · exact (fcdGet _ _ _ _).bind (fun _ => .done _)

/-- Every call of the library, whatever its arguments. -/
theorem api (host : Endian) (c : Api) : Balanced (c.code host) := by
  cases c with
  | fcdOpen path => exact fcdOpen path
  | fcdClose dev => exact fcdClose dev
  | fcdQuery dev str len => exact fcdQuery dev str len
  | fcdBlEraseApplication dev => exact fcdSet dev _ none 0
  | fcdBlSetAddress dev addr => exact fcdSet dev _ _ 4
  | fcdBlGetAddressRange dev => exact fcdBlGetAddressRange host dev
  | fcdBlReadBlock dev block => exact fcdBlReadBlock dev block
  | fcdBlWriteBlock dev block => exact fcdBlWriteBlock dev block
  | fcdBlFlashWrite dev data size => exact fcdBlFlashWrite host dev data size
  | fcdBlFlashVerify dev data size => exact fcdBlFlashVerify host dev data size
  | fcdSetDcCorrection dev i q => exact fcdSetDcCorrection host dev i q
  | fcdGetDcCorrection dev => exact fcdGetDcCorrection host dev
  | fcdSetIqCorrection dev phase gain => exact fcdSetIqCorrection host dev phase gain
  | fcdGetIqCorrection dev => exact fcdGetIqCorrection host dev
  | fcdSetBiasTee dev state => exact fcdSetValue dev fcdValueBiasTee (if state ≠ 0 then 1 else 0)
  | fcdGetBiasTee dev state => exact fcdGetValue dev fcdValueBiasTee state
  | fcdSetFrequencyHz dev freq => exact fcdSet dev _ _ 4
  | fcdGetFrequencyHz dev => exact fcdGetFrequencyHz host dev
  | fcdSetValue dev id value => exact fcdSetValue dev id value
  | fcdGetValue dev id value => exact fcdGetValue dev id value
  | fcdResetBootloader delayMs => exact resetAll fcdCmdResetBootloader delayMs
  | fcdResetApplication delayMs => exact resetAll fcdCmdResetApplication delayMs

/-- A callback between its marks, on a path of the list that is gone through. -/
theorem callback {devs : DeviceList} {path : String} {p : Hid α} (hmem : some path ∈ devs.paths)
    (hp : Balanced p) : Program.Neutral Ledger.watch (Browsing devs) (do
      mark (.enterCallback path)
      let r ← p
      mark (.leaveCallback path)
      pure r) := by
  rintro ⟨opened, lists⟩ ⟨rfl, hlists⟩ -
  obtain ⟨rest, rfl⟩ := List.head?_eq_some_iff.mp hlists
  refine ⟨⟨none, ⟨devs, some path⟩ :: rest⟩, assert_pos ⟨rfl, hmem⟩ _, (hp _ rfl).bind ?_⟩
  rintro r _ rfl
  intro _
  exact ⟨⟨none, ⟨devs, none⟩ :: rest⟩, assert_pos ⟨rfl, rfl⟩ _, rfl⟩

/-- A call of the library between its marks. -/
theorem marked {β : Type} {p : Hid α} {f : α → Hid β} (hp : Balanced p)
    (hf : ∀ r, Balanced (f r)) : Balanced (do
      mark .enterApi
      let r ← p
      mark .leaveApi
      f r) := by
  apply (Program.Neutral.perform (fun w _ hw => assert_pos hw w)).bind
  intro _
  apply hp.bind
  intro r
  exact (Program.Neutral.perform (fun w _ hw => assert_pos hw w)).bind (fun _ => hf r)

theorem client {γ : Type} (host : Endian) (c : Client γ) : Balanced (c.code host) := by
  induction c with
  | done result context => exact .done _
  | api c next ih => exact marked (api host c) ih
  | forEach fn context next ihfn ihnext =>
    refine marked (fcdForEach (fun devs path context hmem => ?_) context) ihnext
    exact callback hmem (ihfn path context)

end Balanced

/-- The handles that were returned by `hid_open_path`. -/
def opened (es : List Happening) : List Handle :=
  es.flatMap (fun
    | ⟨.hidOpenPath _, dev⟩ => Option.toList dev
    | _ => [])

/-- The handles that were given to `hid_close`. -/
def closed (es : List Happening) : List Handle :=
  es.flatMap (fun
    | ⟨.hidClose dev, _⟩ => dev.toList
    | _ => [])

/-- The lists that were returned by `hid_enumerate`. -/
def enumerated (es : List Happening) : List DeviceList :=
  es.flatMap (fun
    | ⟨.hidEnumerate .., devs⟩ => [devs]
    | _ => [])

/-- The lists that were given to `hid_free_enumeration`. -/
def freed (es : List Happening) : List DeviceList :=
  es.flatMap (fun
    | ⟨.hidFreeEnumeration devs, _⟩ => [devs]
    | _ => [])

@[simp] theorem opened_append (xs ys : List Happening) :
    opened (xs ++ ys) = opened xs ++ opened ys := List.flatMap_append

@[simp] theorem closed_append (xs ys : List Happening) :
    closed (xs ++ ys) = closed xs ++ closed ys := List.flatMap_append

@[simp] theorem enumerated_append (xs ys : List Happening) :
    enumerated (xs ++ ys) = enumerated xs ++ enumerated ys := List.flatMap_append

@[simp] theorem freed_append (xs ys : List Happening) :
    freed (xs ++ ys) = freed xs ++ freed ys := List.flatMap_append

/-- Handles and lists are accounted for: what was there and what comes in is
what goes out and what is there then. -/
structure Accounts (w w' : Ledger) (es : List Happening) : Prop where
  handles : w.opened.toList ++ opened es = closed es ++ w'.opened.toList
  lists : (enumerated es ++ w.lists.map Lent.devs).Perm (freed es ++ w'.lists.map Lent.devs)

theorem accounts_refl (w : Ledger) : Accounts w w [] := ⟨List.append_nil _, .refl _⟩

theorem Accounts.trans {u v w : Ledger} {es fs : List Happening} (h : Accounts u v es)
    (h' : Accounts v w fs) : Accounts u w (es ++ fs) := by
  refine ⟨?_, ?_⟩
  · rw [opened_append, closed_append, ← List.append_assoc, h.handles, List.append_assoc,
      h'.handles, List.append_assoc]
  · have swap : ∀ {xs ys zs : List DeviceList}, (xs ++ (ys ++ zs)).Perm (ys ++ (xs ++ zs)) := by
      intro xs ys zs
      have hcomm : (xs ++ ys).Perm (ys ++ xs) := List.perm_append_comm
      simpa using hcomm.append_right zs
    rw [enumerated_append, freed_append, List.append_assoc, List.append_assoc]
    -- what came in later is set aside while the first part is accounted for
    have hfirst := swap.trans (h.lists.append_left (enumerated fs))
    exact hfirst.trans (swap.trans (h'.lists.append_left (freed es)))

/-- One event that keeps to the rules is accounted for. -/
theorem watch_accounts {w w' : Ledger} {e : Happening} (h : Ledger.watch w e = some w') :
    Accounts w w' [e] := by
  obtain ⟨c, r⟩ := e
  cases c with
  | hidOpenPath path =>
    obtain ⟨hw, rfl⟩ := assert_eq_some.mp h
    exact ⟨by simp [opened, closed, hw], .refl _⟩
  | hidWrite dev data =>
    obtain ⟨-, rfl⟩ := assert_eq_some.mp h
    exact ⟨by simp [opened, closed], .refl _⟩
  | hidRead dev length =>
    obtain ⟨-, rfl⟩ := assert_eq_some.mp h
    exact ⟨by simp [opened, closed], .refl _⟩
  | hidClose dev =>
    cases dev with
    | none =>
      obtain rfl := Option.some.inj h
      exact ⟨by simp [opened, closed], .refl _⟩
    | some dev =>
      obtain ⟨hw, rfl⟩ := assert_eq_some.mp h
      exact ⟨by simp [opened, closed, hw], .refl _⟩
  | hidEnumerate vendor product =>
    obtain rfl := Option.some.inj h
    exact ⟨by simp [opened, closed], .refl _⟩
  | deviceInfo devs =>
    obtain ⟨-, rfl⟩ := assert_eq_some.mp h
    exact ⟨by simp [opened, closed], .refl _⟩
  | strdup s entry =>
    cases entry with
    | none =>
      obtain rfl := Option.some.inj h
      exact ⟨by simp [opened, closed], .refl _⟩
    | some devs =>
      obtain ⟨-, rfl⟩ := assert_eq_some.mp h
      exact ⟨by simp [opened, closed], .refl _⟩
  | hidFreeEnumeration devs =>
    obtain ⟨hw, rfl⟩ := assert_eq_some.mp h
    obtain ⟨rest, hlists⟩ := List.head?_eq_some_iff.mp hw
    exact ⟨by simp [opened, closed], by simp [enumerated, freed, hlists]⟩
  | mark m =>
    cases m with
    | enterApi =>
      obtain ⟨-, rfl⟩ := assert_eq_some.mp h
      exact ⟨by simp [opened, closed], .refl _⟩
    | leaveApi =>
      obtain ⟨-, rfl⟩ := assert_eq_some.mp h
      exact ⟨by simp [opened, closed], .refl _⟩
    | enterCallback path =>
      simp only [Ledger.watch] at h
      split at h
      · rename_i devs rest hlists
        obtain ⟨⟨hw, -⟩, rfl⟩ := assert_eq_some.mp h
        exact ⟨by simp [opened, closed, hw], by simp [enumerated, freed, hlists]⟩
      · cases h
    | leaveCallback path =>
      simp only [Ledger.watch] at h
      split at h
      · rename_i devs running rest hlists
        obtain ⟨⟨hw, -⟩, rfl⟩ := assert_eq_some.mp h
        exact ⟨by simp [opened, closed, hw], by simp [enumerated, freed, hlists]⟩
      · cases h
  | _ =>
    obtain rfl := Option.some.inj h
    exact ⟨by simp [opened, closed], .refl _⟩

theorem watchAll_accounts {w w' : Ledger} {es : List Happening}
    (h : es.foldlM Ledger.watch w = some w') : Accounts w w' es := by
  induction es generalizing w with
  | nil =>
    obtain rfl := Option.some.inj h
    exact accounts_refl w
  | cons e es ih =>
    rw [List.foldlM_cons] at h
    obtain ⟨u, he, hes⟩ := Option.bind_eq_some_iff.mp h
    exact (watch_accounts he).trans (ih hes)

/-- Handles and lists of a run that ended are all given back. -/
theorem Accounts.settled {es : List Happening} (h : Accounts .empty .empty es) :
    opened es = closed es ∧ (enumerated es).Perm (freed es) :=
  ⟨by simpa [empty] using h.handles, by simpa [empty] using h.lists⟩

/-- At every point all handles but the last have been closed, or all of them. -/
theorem Accounts.one_open {w : Ledger} {es : List Happening} (h : Accounts .empty w es) :
    opened es = closed es ++ w.opened.toList := by
  simpa [empty] using h.handles

/-- Clients of the library, in any single-threaded run, with anything outside
free to fail: the rules for handles and lists are kept at every point, no more
than one handle is ever open, and at the end each handle has been closed and
each list freed. -/
theorem handles_balanced {γ σ : Type} (host : Endian) (c : Client γ) (h : Host σ) (s : σ) :
    ∃ w : Ledger, (Program.events h (c.code host) s).foldlM Ledger.watch .empty = some w ∧
      (∀ es, es <+: Program.events h (c.code host) s →
        ∃ dev : Option Handle, opened es = closed es ++ dev.toList) ∧
      ∀ (result : Int) (context : γ) (t : σ),
        Program.run h (c.code host) s = some ((result, context), t) →
        w = .empty ∧
          opened (Program.events h (c.code host) s) = closed (Program.events h (c.code host) s) ∧
          (enumerated (Program.events h (c.code host) s)).Perm
            (freed (Program.events h (c.code host) s)) := by
  obtain ⟨w, hfold, hend⟩ := (Balanced.client host c .empty rfl).sound h s
  refine ⟨w, hfold, ?_, fun result context t hrun => ?_⟩
  · rintro es ⟨fs, hes⟩
    rw [← hes, List.foldlM_append] at hfold
    obtain ⟨u, hu, -⟩ := Option.bind_eq_some_iff.mp hfold
    exact ⟨u.opened, (watchAll_accounts hu).one_open⟩
  · obtain rfl := hend _ t hrun
    exact ⟨rfl, (watchAll_accounts hfold).settled⟩

/-- A callback that goes through the list once more, with a query in the inner
callback, which then fails. -/
theorem handles_balanced_nested :
    let outer : Client Nat := .forEach (fun _ n =>
      .forEach (fun path n =>
        .api (.fcdOpen (some path)) (fun dev =>
        .api (.fcdQuery dev (some (Buffer.fresh 64)) 64) (fun _ =>
        .api (.fcdClose dev) (fun _ => .done (-1) (n + 1))))) n (fun r => .done r.1 (r.2 + 10)))
      0 (fun r => .done r.1 r.2)
    let es := Program.events (Link.host (Boot.serve id)) (outer.code .little) ⟨oneBlock, [], []⟩
    opened es = [0, 0] ∧ opened es = closed es := by
  intro outer es
  obtain ⟨w, -, -, hend⟩ :=
    handles_balanced .little outer (Link.host (Boot.serve id)) ⟨oneBlock, [], []⟩
  exact ⟨rfl, (hend (-1) 11 _ rfl).2.1⟩

end Libfcd.Proofs
