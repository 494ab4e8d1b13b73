import Libfcd.Memory.Words

namespace Libfcd.Hidapi
open Memory

/-- `get_bytes`: the `numBytes` bytes behind the one at `cur`, least significant first.
A read behind the end of the array is `none`. -/
def getBytes (rpt : Bytes) (len numBytes cur : Nat) : Option UInt32 :=
  if cur + numBytes ≥ len then some 0
  else
    match numBytes with
    | 1 => do
      let low ← rpt[cur + 1]?
      pure low.toUInt32
    | 2 => do
      let high ← rpt[cur + 2]?
      let low ← rpt[cur + 1]?
      pure (high.toUInt32 * 256 + low.toUInt32)
    | 4 => do
      let b4 ← rpt[cur + 4]?
      let b3 ← rpt[cur + 3]?
      let b2 ← rpt[cur + 2]?
      let b1 ← rpt[cur + 1]?
      pure (b4.toUInt32 * 0x01000000 + b3.toUInt32 * 0x00010000 + b2.toUInt32 * 0x00000100 +
        b1.toUInt32 * 0x00000001)
    | _ => some 0

/-- The size code of a short item. -/
def shortLen (key : UInt8) : Nat :=
  match (key &&& 0x3).toNat with
  | 0 => 0
  | 1 => 1
  | 2 => 2
  | 3 => 4
  | _ => 0

/-- `data_len` and `key_size` of the item at `i`. -/
def itemSizes (report : Bytes) (size i : Nat) (key : UInt8) : Option (Nat × Nat) :=
  if key &&& 0xf0 = 0xf0 then
    -- A long item: the length of its data stands behind the key.
    if (i + 1) % 2 ^ 32 < size then do
      let dataLen ← report[(i + 1) % 2 ^ 32]?
      pure (dataLen.toNat, 3)
    else some (0, 3)
  else some (shortLen key, 1)

/-- What `get_usage` has found so far, in the variables of its caller and its own. -/
structure UsageScan where
  usagePage : UInt16
  usage : UInt16
  usagePageFound : Bool
  usageFound : Bool
  deriving DecidableEq, Repr

/-- The loop of `get_usage` from `i` on, with `unsigned int i`. It reads `none` when it
reads outside the array or has not ended after `fuel` rounds. -/
def getUsageFrom (report : Bytes) (size : Nat) : Nat → Nat → UsageScan → Option (Int × UsageScan)
  | 0, _, _ => none
  | fuel + 1, i, s =>
    if i < size then do
      let key ← report[i]?
      let keyCmd := key &&& 0xfc
      let (dataLen, keySize) ← itemSizes report size i key
      let s ← if keyCmd = 0x4 then do
          let value ← getBytes report size dataLen i
          pure { s with usagePage := value.toUInt16, usagePageFound := true }
        else pure s
      let s ← if keyCmd = 0x8 then do
          let value ← getBytes report size dataLen i
          pure { s with usage := value.toUInt16, usageFound := true }
        else pure s
      if s.usagePageFound && s.usageFound then pure (0, s)
      else getUsageFrom report size fuel ((i + (dataLen + keySize)) % 2 ^ 32) s
    else pure (-1, s)

/-- `get_usage`, with what the two variables of its caller hold at first. -/
def getUsage (report : Bytes) (size fuel : Nat) (usagePage usage : UInt16) :
    Option (Int × UInt16 × UInt16) :=
  (getUsageFrom report size fuel 0 ⟨usagePage, usage, false, false⟩).map
    (fun (res, s) => (res, s.usagePage, s.usage))

end Libfcd.Hidapi
