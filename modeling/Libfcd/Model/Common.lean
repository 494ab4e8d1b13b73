import Libfcd.Interaction.Loop
import Libfcd.Model.Calls

namespace Libfcd.Model
open Interaction Memory

/-- Values of `errno` the library sets. -/
inductive Errno where
  | efault
  | enodev
  | eio
  | eoverflow
  | einval
  deriving DecidableEq, Repr

/-- An `int` result that is 0, or -1 with `errno` set. -/
abbrev Status := Except Errno Unit

/-- An open `FCD`. Its path is not NULL: `fcd_open` returns no other. `addr` and
`pathAddr` are the blocks of the structure and of the path. -/
structure Fcd where
  addr : Nat
  path : String
  pathAddr : Nat
  deriving DecidableEq, Repr

def fcdCommandDataLen : Nat := 63

def fcdResponseDataLen : Nat := 62

/-- `sizeof(fcd_buffer)`: the command, which is the longer half of the union. -/
def fcdBufferLen : Nat := 2 + fcdCommandDataLen

def fcdUsbVid : UInt16 := 0x04d8

def fcdUsbPid : UInt16 := 0xfb56

def fcdCmdQuery : UInt8 := 1
def fcdCmdResetApplication : UInt8 := 8
def fcdCmdResetBootloader : UInt8 := 255

/-- The big-endian branch is read without its last closing parenthesis, which
has no partner in the source. -/
def convertLeU32 (host : Endian) (v : UInt32) : UInt32 :=
  match host with
  | .big => swap32 v
  | .little => v

def convertLeU16 (host : Endian) (v : UInt16) : UInt16 :=
  match host with
  | .big => swap16 v
  | .little => v

/-- Ends when `t` falls below 1000; the counter is unsigned. -/
def msSleepHead : LoopHead UInt32 where
  test t := t ≥ 1000
  step t := t - 1000
  inv _ := True
  fuel t := t.toNat
  falls t _ ht := by
    have h : 1000 ≤ t := by simpa using ht
    have hn : 1000 ≤ t.toNat := UInt32.le_iff_toNat_le.mp h
    refine ⟨trivial, ?_⟩
    rw [UInt32.toNat_sub_of_le _ _ h]
    exact Nat.sub_lt (by omega) (by decide)

/-- The branch for `usleep`, where SHORT_SLEEP_FACTOR is 1000. -/
def shortSleepFactor : UInt32 := 1000

def msSleep (ms : UInt32) : Hid Unit := do
  let t ← msSleepHead.loop (γ := Empty) (fun _ => do
    usleep (500 * shortSleepFactor)
    usleep (500 * shortSleepFactor)
    pure none) ms.toNat ms trivial (Nat.le_refl _)
  match t with
  | .inl e => nomatch e
  | .inr t => usleep (t * shortSleepFactor)

/-- `ilen` after trimming. The room is a `size_t`, so a skip beyond 63 wraps. -/
def trimIlen (iskip ilen : UInt8) : UInt8 :=
  let room : UInt64 := UInt64.ofNat fcdCommandDataLen - iskip.toUInt64
  if ilen.toUInt64 > room then room.toUInt8 else ilen

/-- `olen` after trimming. -/
def trimOlen (olen : UInt8) : UInt8 :=
  if olen.toNat > fcdResponseDataLen then UInt8.ofNat fcdResponseDataLen else olen

/-- The union with a request in it: report ID, command, padding and payload.
`idata` is what can be read behind the pointer, `none` for NULL. -/
def fillCommand (cmd iskip : UInt8) (idata : Option Bytes) (ilen : UInt8) : Option Buffer := do
  let buffer ← (Buffer.fresh fcdBufferLen).put 0 [some 0]
  let buffer ← buffer.put 1 [some cmd]
  let buffer ← buffer.put 2 (List.replicate iskip.toNat (some 0))
  let payload ← Buffer.slice ((idata.getD []).map some) 0 ilen.toNat
  buffer.put (2 + iskip.toNat) payload

/-- `memcpy(odata, &buffer.response.data, olen)`. -/
def copyResponse (buffer : Buffer) (odata : Option Buffer) (olen : UInt8) :
    Option (Option Buffer) := do
  let payload ← buffer.slice 2 olen.toNat
  match odata with
  | none => if olen = 0 then some none else none
  | some out => (out.put 0 payload).map some

/-- The nested tests of `fcd_io` between `hid_open_path` and `hid_close`: whether
`result` becomes 0, and what then stands behind `odata`. -/
def sendReceive (hidDev : Handle) (cmd : UInt8) (buffer : Buffer) (length : Nat)
    (odata : Option Buffer) (olen : UInt8) : Hid (Bool × Option Buffer) := do
  let report ← .expect ((buffer.slice 0 length).bind Buffer.written)
  let written ← hidWrite hidDev report
  if written ≥ length then do
    let _ ← .expect (buffer.slice 0 (olen.toNat + 2))
    let received ← hidRead hidDev (olen.toNat + 2)
    let buffer ← .expect (buffer.put 0 (received.stored (olen.toNat + 2)))
    if received.count ≥ olen.toNat + 2 then
      if buffer[0]? = some (some cmd) ∧ buffer[1]? = some (some 1) then do
        let odata ← .expect (copyResponse buffer odata olen)
        pure (true, odata)
      else pure (false, odata)
    else pure (false, odata)
  else pure (false, odata)

/-- The result comes with what stands behind `odata` afterwards. -/
def fcdIo (dev : Option Fcd) (cmd iskip : UInt8) (idata : Option Bytes) (ilen : UInt8)
    (odata : Option Buffer) (olen : UInt8) : Hid (Status × Option Buffer) :=
  match dev with
  | none => pure (.error .efault, odata)
  | some dev =>
    if (ilen ≠ 0 ∧ idata = none) ∨ (olen ≠ 0 ∧ odata = none) then
      pure (.error .efault, odata)
    else do
      let ilen := trimIlen iskip ilen
      let olen := trimOlen olen
      match ← hidOpenPath dev.path with
      | none => pure (.error .enodev, odata)
      | some hidDev => do
        let buffer ← .expect (fillCommand cmd iskip idata ilen)
        let (ok, odata) ← sendReceive hidDev cmd buffer (ilen.toNat + 2 + iskip.toNat) odata olen
        hidClose (some hidDev)
        pure (if ok then .ok () else .error .eio, odata)

def fcdGet (dev : Option Fcd) (cmd : UInt8) (data : Option Buffer) (len : UInt8) :
    Hid (Status × Option Buffer) :=
  fcdIo dev cmd 0 none 0 data len

def fcdSet (dev : Option Fcd) (cmd : UInt8) (data : Option Bytes) (len : UInt8) : Hid Status := do
  let (result, _) ← fcdIo dev cmd 0 data len none 0
  pure result

def fcdClose (dev : Option Fcd) : Hid Unit :=
  match dev with
  | none => pure ()
  | some dev => do
    free dev.pathAddr
    free dev.addr

/-- The `strdup` into `dev->path`; without a path `fcd_close` frees the structure
alone and NULL is returned. -/
def keepPath (addr : Nat) (path : Option (String × Option Nat)) : Hid (Option Fcd) :=
  match path with
  | some (path, some pathAddr) => pure (some ⟨addr, path, pathAddr⟩)
  | some (_, none) | none => do
    free addr
    pure none

/-- A copy of the path of the first entry, if there is one and it has a path. -/
def copyFirst (devs : DeviceList) : Hid (Option (String × Option Nat)) :=
  match devs.paths with
  | some first :: _ => do
    deviceInfo devs
    let copy ← strdup first (some devs)
    pure (some (first, copy))
  | none :: _ => do
    deviceInfo devs
    pure none
  | [] => pure none

def fcdOpen (path : Option String) : Hid (Option Fcd) := do
  -- sizeof(FCD) is one pointer
  match ← malloc 8 with
  | none => pure none
  | some addr =>
    match path with
    | none => do
      let devs ← hidEnumerate fcdUsbVid fcdUsbPid
      let kept ← copyFirst devs
      hidFreeEnumeration devs
      keepPath addr kept
    | some path => do
      let hidDev ← hidOpenPath path
      let kept ← match hidDev with
        | some _ => do
          let copy ← strdup path none
          pure (some (path, copy))
        | none => pure none
      hidClose hidDev
      keepPath addr kept

/-- The user function on an entry; entries without a path are passed over. -/
def visitPath {γ : Type} (fn : String → γ → Hid (Int × γ)) (path : Option String) (context : γ) :
    Hid (Int × γ) :=
  match path with
  | some path => fn path context
  | none => pure (0, context)

/-- The `while` loop of `fcd_for_each` over the entries still to come. -/
def visitEach {γ : Type} (fn : String → γ → Hid (Int × γ)) (devs : DeviceList) :
    List (Option String) → γ → Hid (Int × γ)
  | [], context => pure (0, context)
  | path :: rest, context => do
    deviceInfo devs
    let (result, context) ← visitPath fn path context
    if result ≠ 0 then pure (result, context)
    else do
      deviceInfo devs
      visitEach fn devs rest context

/-- `context` is what the callbacks find and leave behind their pointer. -/
def fcdForEach {γ : Type} (fn : String → γ → Hid (Int × γ)) (context : γ) : Hid (Int × γ) := do
  let devs ← hidEnumerate fcdUsbVid fcdUsbPid
  let result ← visitEach fn devs devs.paths context
  hidFreeEnumeration devs
  pure result

/-- `context` holds the reset command. -/
def fcdReset (path : String) (context : UInt8) : Hid (Int × UInt8) := do
  match ← fcdOpen (some path) with
  | some dev => do
    let _ ← fcdSet (some dev) context none 0
    fcdClose (some dev)
    pure (0, context)
  | none => pure (0, context)

/-- `len` narrows to an `unsigned char` on its way into `fcd_get`, and is used
whole for the terminator. The flag is whether `str` (and not NULL) is returned. -/
def fcdQuery (dev : Option Fcd) (str : Option Buffer) (len : Int32) :
    Hid (Bool × Option Buffer) := do
  match ← fcdGet dev fcdCmdQuery str (UInt8.ofInt len.toInt) with
  | (.error _, str) => pure (false, str)
  | (.ok (), str) => do
    let str ← .expect (str.bind (fun b =>
      if 0 ≤ len.toInt - 1 then b.put (len.toInt - 1).toNat [some 0] else none))
    pure (true, some str)

def fcdResetBootloader (delayMs : UInt32) : Hid Unit := do
  let _ ← fcdForEach fcdReset fcdCmdResetBootloader
  msSleep delayMs

def fcdResetApplication (delayMs : UInt32) : Hid Unit := do
  let _ ← fcdForEach fcdReset fcdCmdResetApplication
  msSleep delayMs

end Libfcd.Model
