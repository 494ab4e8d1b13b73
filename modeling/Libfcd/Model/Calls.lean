import Libfcd.Memory.Words
import Mathlib.Data.List.TakeDrop

namespace Libfcd.Model
open Interaction Memory

/-- A `hid_device *` that is not NULL. -/
abbrev Handle := Nat

/-- What `hid_read` hands back: the count it returns and the bytes it stores. -/
structure Received where
  count : Int
  data : Bytes
  deriving DecidableEq, Repr

/-- The cells stored for a read of `length` bytes: as many as the returned
count, and never more than were asked for. -/
def Received.stored (r : Received) (length : Nat) : Buffer :=
  (r.data.takeD (min r.count.toNat length) 0).map some

@[simp] theorem Received.length_stored (r : Received) (length : Nat) :
    (r.stored length).length = min r.count.toNat length := by
  simp [stored, List.takeD_length]

/-- A list made by `hid_enumerate`, with the `path` of each entry. The empty
list is the NULL pointer. -/
structure DeviceList where
  id : Nat
  paths : List (Option String)
  deriving DecidableEq, Repr

inductive Stream where
  | stdout
  | stderr
  deriving DecidableEq, Repr

inductive Whence where
  | set
  | stop
  deriving DecidableEq, Repr

/-- Points of a client's run that the library itself does not see. -/
inductive Mark where
  | enterApi
  | leaveApi
  | enterCallback (path : String)
  | leaveCallback (path : String)
  deriving DecidableEq, Repr

/-- Everything the library and its tools ask of hidapi and of the C library.
`deviceInfo` is a read of an entry of an enumerated list, and `strdup` names the
list whose path it copies, if it copies one of those. -/
inductive Call where
  | malloc (size : Nat)
  | strdup (s : String) (entry : Option DeviceList)
  | free (block : Nat)
  | usleep (us : UInt32)
  | hidOpenPath (path : String)
  | hidWrite (dev : Handle) (data : Bytes)
  | hidRead (dev : Handle) (length : Nat)
  | hidClose (dev : Option Handle)
  | hidEnumerate (vendor product : UInt16)
  | deviceInfo (devs : DeviceList)
  | hidFreeEnumeration (devs : DeviceList)
  | print (stream : Stream) (text : String)
  | perror (text : String)
  | fopen (name : String)
  | fseek (file : Nat) (whence : Whence)
  | ftell (file : Nat)
  | fread (file : Nat) (size : Nat)
  | fclose (file : Nat)
  | mark (m : Mark)
  deriving DecidableEq, Repr

/-- The type of what each call returns. Pointers are `none` for NULL. -/
def Call.Answer : Call → Type
  | .malloc _ | .strdup .. => Option Nat
  | .hidOpenPath _ => Option Handle
  | .hidWrite .. => Int
  | .hidRead .. => Received
  | .hidEnumerate .. => DeviceList
  | .fopen _ => Option Nat
  | .fseek .. | .ftell _ => Int
  | .fread .. => Bytes
  | .free _ | .usleep _ | .hidClose _ | .deviceInfo _ | .hidFreeEnumeration _
  | .print .. | .perror _ | .fclose _ | .mark _ => Unit

/-- Code of the library, in the calls it makes. -/
abbrev Hid := Program Call Call.Answer

/-- Surroundings of the library: devices, allocator, files. -/
abbrev Host (σ : Type) := Handler Call Call.Answer σ

abbrev Happening := Event Call Call.Answer

def malloc (size : Nat) : Hid (Option Nat) := Program.perform (Call.malloc size)
def strdup (s : String) (entry : Option DeviceList) : Hid (Option Nat) :=
  Program.perform (Call.strdup s entry)
def free (block : Nat) : Hid Unit := Program.perform (Call.free block)
def usleep (us : UInt32) : Hid Unit := Program.perform (Call.usleep us)
def hidOpenPath (path : String) : Hid (Option Handle) := Program.perform (Call.hidOpenPath path)
def hidWrite (dev : Handle) (data : Bytes) : Hid Int := Program.perform (Call.hidWrite dev data)
def hidRead (dev : Handle) (length : Nat) : Hid Received :=
  Program.perform (Call.hidRead dev length)
def hidClose (dev : Option Handle) : Hid Unit := Program.perform (Call.hidClose dev)
def hidEnumerate (vendor product : UInt16) : Hid DeviceList :=
  Program.perform (Call.hidEnumerate vendor product)
def deviceInfo (devs : DeviceList) : Hid Unit := Program.perform (Call.deviceInfo devs)
def hidFreeEnumeration (devs : DeviceList) : Hid Unit :=
  Program.perform (Call.hidFreeEnumeration devs)
def print (stream : Stream) (text : String) : Hid Unit := Program.perform (Call.print stream text)
def perror (text : String) : Hid Unit := Program.perform (Call.perror text)
def fopen (name : String) : Hid (Option Nat) := Program.perform (Call.fopen name)
def fseek (file : Nat) (whence : Whence) : Hid Int := Program.perform (Call.fseek file whence)
def ftell (file : Nat) : Hid Int := Program.perform (Call.ftell file)
def fread (file : Nat) (size : Nat) : Hid Bytes := Program.perform (Call.fread file size)
def fclose (file : Nat) : Hid Unit := Program.perform (Call.fclose file)
def mark (m : Mark) : Hid Unit := Program.perform (Call.mark m)

variable {σ β : Type}

@[simp] theorem hidOpenPath_bind (path : String) (f : Option Handle → Hid β) :
    (hidOpenPath path >>= f) = .call (.hidOpenPath path) f := rfl

@[simp] theorem hidWrite_bind (dev : Handle) (data : Bytes) (f : Int → Hid β) :
    (hidWrite dev data >>= f) = .call (.hidWrite dev data) f := rfl

@[simp] theorem hidRead_bind (dev : Handle) (length : Nat) (f : Received → Hid β) :
    (hidRead dev length >>= f) = .call (.hidRead dev length) f := rfl

@[simp] theorem hidClose_bind (dev : Option Handle) (f : Unit → Hid β) :
    (hidClose dev >>= f) = .call (.hidClose dev) f := rfl

/-- The answers of a host at the types the code uses them at. -/
def allocating (h : Host σ) (size : Nat) (s : σ) : Option Nat × σ := h (.malloc size) s
def copying (h : Host σ) (text : String) (s : σ) : Option Nat × σ := h (.strdup text none) s
def opening (h : Host σ) (path : String) (s : σ) : Option Handle × σ := h (.hidOpenPath path) s
def writing (h : Host σ) (dev : Handle) (data : Bytes) (s : σ) : Int × σ :=
  h (.hidWrite dev data) s
def reading (h : Host σ) (dev : Handle) (length : Nat) (s : σ) : Received × σ :=
  h (.hidRead dev length) s
def enumerating (h : Host σ) (vendor product : UInt16) (s : σ) : DeviceList × σ :=
  h (.hidEnumerate vendor product) s
def finding (h : Host σ) (name : String) (s : σ) : Option Nat × σ := h (.fopen name) s
def seeking (h : Host σ) (file : Nat) (whence : Whence) (s : σ) : Int × σ :=
  h (.fseek file whence) s
def telling (h : Host σ) (file : Nat) (s : σ) : Int × σ := h (.ftell file) s
def fetching (h : Host σ) (file size : Nat) (s : σ) : Bytes × σ := h (.fread file size) s
def closing (h : Host σ) (dev : Handle) (s : σ) : σ := (h (.hidClose (some dev)) s).2

@[simp] theorem run_open (h : Host σ) (path : String) (f : Option Handle → Hid β) (s : σ) :
    Program.run h (.call (.hidOpenPath path) f) s =
      Program.run h (f (opening h path s).1) (opening h path s).2 := rfl

@[simp] theorem run_write (h : Host σ) (dev : Handle) (data : Bytes) (f : Int → Hid β) (s : σ) :
    Program.run h (.call (.hidWrite dev data) f) s =
      Program.run h (f (writing h dev data s).1) (writing h dev data s).2 := rfl

@[simp] theorem run_read (h : Host σ) (dev : Handle) (length : Nat) (f : Received → Hid β)
    (s : σ) :
    Program.run h (.call (.hidRead dev length) f) s =
      Program.run h (f (reading h dev length s).1) (reading h dev length s).2 := rfl

@[simp] theorem run_close (h : Host σ) (dev : Handle) (f : Unit → Hid β) (s : σ) :
    Program.run h (.call (.hidClose (some dev)) f) s =
      Program.run h (f ()) (closing h dev s) := rfl

@[simp] theorem events_open (h : Host σ) (path : String) (f : Option Handle → Hid β) (s : σ) :
    Program.events h (.call (.hidOpenPath path) f) s = ⟨.hidOpenPath path, (opening h path s).1⟩ ::
      Program.events h (f (opening h path s).1) (opening h path s).2 := rfl

@[simp] theorem events_write (h : Host σ) (dev : Handle) (data : Bytes) (f : Int → Hid β)
    (s : σ) :
    Program.events h (.call (.hidWrite dev data) f) s =
      ⟨.hidWrite dev data, (writing h dev data s).1⟩ ::
        Program.events h (f (writing h dev data s).1) (writing h dev data s).2 := rfl

@[simp] theorem events_read (h : Host σ) (dev : Handle) (length : Nat) (f : Received → Hid β)
    (s : σ) :
    Program.events h (.call (.hidRead dev length) f) s =
      ⟨.hidRead dev length, (reading h dev length s).1⟩ ::
        Program.events h (f (reading h dev length s).1) (reading h dev length s).2 := rfl

@[simp] theorem events_close (h : Host σ) (dev : Handle) (f : Unit → Hid β) (s : σ) :
    Program.events h (.call (.hidClose (some dev)) f) s = ⟨.hidClose (some dev), ()⟩ ::
      Program.events h (f ()) (closing h dev s) := rfl

variable {α : Type} {h : Host σ} {s t u : σ} {a : α} {es : List Happening}

theorem runs_malloc {size : Nat} {r : Option Nat} (hr : allocating h size s = (r, t))
    {f : Option Nat → Hid α} (hf : Program.Runs h (f r) t a u es) :
    Program.Runs h (malloc size >>= f) s a u (⟨.malloc size, r⟩ :: es) :=
  Program.Runs.perform (h := h) (i := Call.malloc size) hr hf

theorem runs_strdup {text : String} {r : Option Nat} (hr : copying h text s = (r, t))
    {f : Option Nat → Hid α} (hf : Program.Runs h (f r) t a u es) :
    Program.Runs h (strdup text none >>= f) s a u (⟨.strdup text none, r⟩ :: es) :=
  Program.Runs.perform (h := h) (i := Call.strdup text none) hr hf

theorem runs_open {path : String} {r : Option Handle} (hr : opening h path s = (r, t))
    {f : Option Handle → Hid α} (hf : Program.Runs h (f r) t a u es) :
    Program.Runs h (hidOpenPath path >>= f) s a u (⟨.hidOpenPath path, r⟩ :: es) :=
  Program.Runs.perform (h := h) (i := Call.hidOpenPath path) hr hf

theorem runs_enumerate {vendor product : UInt16} {r : DeviceList}
    (hr : enumerating h vendor product s = (r, t)) {f : DeviceList → Hid α}
    (hf : Program.Runs h (f r) t a u es) :
    Program.Runs h (hidEnumerate vendor product >>= f) s a u
      (⟨.hidEnumerate vendor product, r⟩ :: es) :=
  Program.Runs.perform (h := h) (i := Call.hidEnumerate vendor product) hr hf

theorem runs_fopen {name : String} {r : Option Nat} (hr : finding h name s = (r, t))
    {f : Option Nat → Hid α} (hf : Program.Runs h (f r) t a u es) :
    Program.Runs h (fopen name >>= f) s a u (⟨.fopen name, r⟩ :: es) :=
  Program.Runs.perform (h := h) (i := Call.fopen name) hr hf

theorem runs_fseek {file : Nat} {whence : Whence} {r : Int}
    (hr : seeking h file whence s = (r, t)) {f : Int → Hid α}
    (hf : Program.Runs h (f r) t a u es) :
    Program.Runs h (fseek file whence >>= f) s a u (⟨.fseek file whence, r⟩ :: es) :=
  Program.Runs.perform (h := h) (i := Call.fseek file whence) hr hf

theorem runs_ftell {file : Nat} {r : Int} (hr : telling h file s = (r, t)) {f : Int → Hid α}
    (hf : Program.Runs h (f r) t a u es) :
    Program.Runs h (ftell file >>= f) s a u (⟨.ftell file, r⟩ :: es) :=
  Program.Runs.perform (h := h) (i := Call.ftell file) hr hf

theorem runs_fread {file size : Nat} {r : Bytes} (hr : fetching h file size s = (r, t))
    {f : Bytes → Hid α} (hf : Program.Runs h (f r) t a u es) :
    Program.Runs h (fread file size >>= f) s a u (⟨.fread file size, r⟩ :: es) :=
  Program.Runs.perform (h := h) (i := Call.fread file size) hr hf

end Libfcd.Model
