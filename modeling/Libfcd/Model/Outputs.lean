import Libfcd.Model.Application
import Libfcd.Model.Bootloader

namespace Libfcd.Model
open Interaction Memory

variable {α β : Type}

/-! The getters with the variables behind their pointers, before and after.
`none` is the NULL pointer. -/

/-- `if (NULL != p) *p = v;` -/
def storeUnlessNull (p : Option α) (v : α) : Option α := p.map (fun _ => v)

/-- The end of a getter with two pointers: a failure is returned before anything
is stored. -/
def storeBoth (p : Option α) (q : Option β) :
    Except Errno (α × β) → Status × Option α × Option β
  | .error e => (.error e, p, q)
  | .ok (v, w) => (.ok (), storeUnlessNull p v, storeUnlessNull q w)

def fcdGetDcCorrectionAt (host : Endian) (dev : Option Fcd) (i q : Option Int32) :
    Hid (Status × Option Int32 × Option Int32) := do
  let result ← fcdGetDcCorrection host dev
  pure (storeBoth i q result)

def fcdGetIqCorrectionAt (host : Endian) (dev : Option Fcd) (phase : Option Int32)
    (gain : Option UInt32) : Hid (Status × Option Int32 × Option UInt32) := do
  let result ← fcdGetIqCorrection host dev
  pure (storeBoth phase gain result)

def fcdBlGetAddressRangeAt (host : Endian) (dev : Option Fcd) (start stop : Option UInt32) :
    Hid (Status × Option UInt32 × Option UInt32) := do
  let result ← fcdBlGetAddressRange host dev
  pure (storeBoth start stop result)

/-- `freq` is stored through without a test for NULL. -/
def fcdGetFrequencyHzAt (host : Endian) (dev : Option Fcd) (freq : Option UInt32) :
    Hid (Status × Option UInt32) := do
  match ← fcdGetFrequencyHz host dev with
  | .error e => pure (.error e, freq)
  | .ok v => do
    let _ ← .expect freq
    pure (.ok (), some v)

end Libfcd.Model
