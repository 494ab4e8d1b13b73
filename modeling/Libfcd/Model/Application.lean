import Libfcd.Model.Common

namespace Libfcd.Model
open Interaction Memory

def fcdCmdSetFrequencyHz : UInt8 := 101
def fcdCmdGetFrequencyHz : UInt8 := 102
def fcdCmdSetDcCorr : UInt8 := 106
def fcdCmdGetDcCorr : UInt8 := 107
def fcdCmdSetIqCorr : UInt8 := 108
def fcdCmdGetIqCorr : UInt8 := 109
def fcdCmdSetValueOffset : UInt32 := 110
def fcdCmdGetValueOffset : UInt32 := 150

/-- The two of the value identifiers that the code itself mentions. -/
def fcdValueBiasTee : UInt32 := 16
def fcdValueUndefined : UInt32 := 17

def fcdSetDcCorrection (host : Endian) (dev : Option Fcd) (i q : Int32) : Hid Status :=
  let correction0 := i.toInt16
  let correction1 := q.toInt16
  if i ≠ correction0.toInt32 ∨ q ≠ correction1.toInt32 then pure (.error .eoverflow)
  else
    let correction0 := (convertLeU16 host correction0.toUInt16).toInt16
    let correction1 := (convertLeU16 host correction1.toUInt16).toInt16
    fcdSet dev fcdCmdSetDcCorr
      (some (store16 host correction0.toUInt16 ++ store16 host correction1.toUInt16)) 4

/-- `i` and `q`, stored through the pointers that are not NULL on success only. -/
def fcdGetDcCorrection (host : Endian) (dev : Option Fcd) :
    Hid (Except Errno (Int32 × Int32)) := do
  match ← fcdGet dev fcdCmdGetDcCorr (some (Buffer.fresh 4)) 4 with
  | (.error e, _) => pure (.error e)
  | (.ok (), correction) => do
    let correction ← .expect (correction.bind Buffer.written)
    pure (.ok ((convertLeU16 host (load16 host (correction.take 2))).toInt16.toInt32,
      (convertLeU16 host (load16 host (correction.drop 2))).toInt16.toInt32))

def fcdSetIqCorrection (host : Endian) (dev : Option Fcd) (phase : Int32) (gain : UInt32) :
    Hid Status :=
  let correctionPhase := phase.toInt16
  let correctionGain := gain.toUInt16
  if phase ≠ correctionPhase.toInt32 ∨ gain ≠ correctionGain.toUInt32 then
    pure (.error .eoverflow)
  else
    let correctionPhase := (convertLeU16 host correctionPhase.toUInt16).toInt16
    -- the detour of the gain through a signed type is the source's
    let correctionGain := (convertLeU16 host correctionGain).toInt16.toUInt16
    fcdSet dev fcdCmdSetIqCorr
      (some (store16 host correctionPhase.toUInt16 ++ store16 host correctionGain)) 4

/-- `phase` and `gain`, stored through the pointers that are not NULL on success
only. -/
def fcdGetIqCorrection (host : Endian) (dev : Option Fcd) :
    Hid (Except Errno (Int32 × UInt32)) := do
  match ← fcdGet dev fcdCmdGetIqCorr (some (Buffer.fresh 4)) 4 with
  | (.error e, _) => pure (.error e)
  | (.ok (), correction) => do
    let correction ← .expect (correction.bind Buffer.written)
    pure (.ok ((convertLeU16 host (load16 host (correction.take 2))).toInt16.toInt32,
      (convertLeU16 host (load16 host (correction.drop 2))).toUInt32))

def fcdSetFrequencyHz (host : Endian) (dev : Option Fcd) (freq : UInt32) : Hid Status :=
  let fHz := convertLeU32 host freq
  fcdSet dev fcdCmdSetFrequencyHz (some (store32 host fHz)) 4

/-- The frequency, stored through `freq` on success only. -/
def fcdGetFrequencyHz (host : Endian) (dev : Option Fcd) : Hid (Except Errno UInt32) := do
  match ← fcdGet dev fcdCmdGetFrequencyHz (some (Buffer.fresh 4)) 4 with
  | (.error e, _) => pure (.error e)
  | (.ok (), fHz) => do
    let fHz ← .expect (fHz.bind Buffer.written)
    pure (.ok (convertLeU32 host (load32 host fHz)))

/-- The identifier is an enumeration, which is unsigned. -/
def fcdSetValue (dev : Option Fcd) (id : UInt32) (value : UInt8) : Hid Status :=
  if id ≥ fcdValueUndefined then pure (.error .einval)
  else fcdSet dev (fcdCmdSetValueOffset + id).toUInt8 (some [value]) 1

/-- `value` is the byte behind the caller's pointer, `none` for NULL. What the
exchange fills in is the first byte of the parameter `value` itself, the pointer:
the source passes `&value`, so the caller's byte is left as it was. -/
def fcdGetValue (dev : Option Fcd) (id : UInt32) (value : Option UInt8) :
    Hid (Status × Option UInt8) :=
  if id ≥ fcdValueUndefined then pure (.error .einval, value)
  else do
    let (result, _) ← fcdGet dev (fcdCmdGetValueOffset + id).toUInt8 (some (Buffer.fresh 8)) 1
    pure (result, value)

def fcdSetBiasTee (dev : Option Fcd) (state : UInt8) : Hid Status :=
  let bias : UInt8 := if state ≠ 0 then 1 else 0
  fcdSetValue dev fcdValueBiasTee bias

def fcdGetBiasTee (dev : Option Fcd) (state : Option UInt8) : Hid (Status × Option UInt8) :=
  fcdGetValue dev fcdValueBiasTee state

end Libfcd.Model
