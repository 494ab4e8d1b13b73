import Libfcd.Model.Application
import Libfcd.Model.Bootloader

namespace Libfcd.Model
open Interaction Memory

/-- A call of the public interface, with its arguments. The one that takes a
callback is a step of its own in a client. -/
inductive Api where
  | fcdOpen (path : Option String)
  | fcdClose (dev : Option Fcd)
  | fcdQuery (dev : Option Fcd) (str : Option Buffer) (len : Int32)
  | fcdBlEraseApplication (dev : Option Fcd)
  | fcdBlSetAddress (dev : Option Fcd) (addr : UInt32)
  | fcdBlGetAddressRange (dev : Option Fcd)
  | fcdBlReadBlock (dev : Option Fcd) (block : Option Buffer)
  | fcdBlWriteBlock (dev : Option Fcd) (block : Option Bytes)
  | fcdBlFlashWrite (dev : Option Fcd) (data : Bytes) (size : UInt32)
  | fcdBlFlashVerify (dev : Option Fcd) (data : Bytes) (size : UInt32)
  | fcdSetDcCorrection (dev : Option Fcd) (i q : Int32)
  | fcdGetDcCorrection (dev : Option Fcd)
  | fcdSetIqCorrection (dev : Option Fcd) (phase : Int32) (gain : UInt32)
  | fcdGetIqCorrection (dev : Option Fcd)
  | fcdSetBiasTee (dev : Option Fcd) (state : UInt8)
  | fcdGetBiasTee (dev : Option Fcd) (state : Option UInt8)
  | fcdSetFrequencyHz (dev : Option Fcd) (freq : UInt32)
  | fcdGetFrequencyHz (dev : Option Fcd)
  | fcdSetValue (dev : Option Fcd) (id : UInt32) (value : UInt8)
  | fcdGetValue (dev : Option Fcd) (id : UInt32) (value : Option UInt8)
  | fcdResetBootloader (delayMs : UInt32)
  | fcdResetApplication (delayMs : UInt32)

namespace Api

/-- What a call gives back, through pointers included. -/
def Result : Api → Type
  | .fcdOpen _ => Option Fcd
  | .fcdClose _ | .fcdResetBootloader _ | .fcdResetApplication _ => Unit
  | .fcdQuery .. => Bool × Option Buffer
  | .fcdBlEraseApplication _ | .fcdBlSetAddress .. | .fcdBlWriteBlock .. | .fcdSetDcCorrection ..
  | .fcdSetIqCorrection .. | .fcdSetBiasTee .. | .fcdSetFrequencyHz .. | .fcdSetValue .. => Status
  | .fcdBlGetAddressRange _ => Except Errno (UInt32 × UInt32)
  | .fcdBlReadBlock .. => Status × Option Buffer
  | .fcdBlFlashWrite .. | .fcdBlFlashVerify .. => Int
  | .fcdGetDcCorrection _ => Except Errno (Int32 × Int32)
  | .fcdGetIqCorrection _ => Except Errno (Int32 × UInt32)
  | .fcdGetFrequencyHz _ => Except Errno UInt32
  | .fcdGetBiasTee .. | .fcdGetValue .. => Status × Option UInt8

def code (host : Endian) : (c : Api) → Hid c.Result
  | .fcdOpen path => Model.fcdOpen path
  | .fcdClose dev => Model.fcdClose dev
  | .fcdQuery dev str len => Model.fcdQuery dev str len
  | .fcdBlEraseApplication dev => Model.fcdBlEraseApplication dev
  | .fcdBlSetAddress dev addr => Model.fcdBlSetAddress host dev addr
  | .fcdBlGetAddressRange dev => Model.fcdBlGetAddressRange host dev
  | .fcdBlReadBlock dev block => Model.fcdBlReadBlock dev block
  | .fcdBlWriteBlock dev block => Model.fcdBlWriteBlock dev block
  | .fcdBlFlashWrite dev data size => Model.fcdBlFlashWrite host dev data size
  | .fcdBlFlashVerify dev data size => Model.fcdBlFlashVerify host dev data size
  | .fcdSetDcCorrection dev i q => Model.fcdSetDcCorrection host dev i q
  | .fcdGetDcCorrection dev => Model.fcdGetDcCorrection host dev
  | .fcdSetIqCorrection dev phase gain => Model.fcdSetIqCorrection host dev phase gain
  | .fcdGetIqCorrection dev => Model.fcdGetIqCorrection host dev
  | .fcdSetBiasTee dev state => Model.fcdSetBiasTee dev state
  | .fcdGetBiasTee dev state => Model.fcdGetBiasTee dev state
  | .fcdSetFrequencyHz dev freq => Model.fcdSetFrequencyHz host dev freq
  | .fcdGetFrequencyHz dev => Model.fcdGetFrequencyHz host dev
  | .fcdSetValue dev id value => Model.fcdSetValue dev id value
  | .fcdGetValue dev id value => Model.fcdGetValue dev id value
  | .fcdResetBootloader delayMs => Model.fcdResetBootloader delayMs
  | .fcdResetApplication delayMs => Model.fcdResetApplication delayMs

end Api

/-- A program on top of the library: any calls, each depending on the results so
far. The callbacks of `fcd_for_each` are such programs again; what they share
with the rest goes through the context. -/
inductive Client (γ : Type) where
  | done (result : Int) (context : γ)
  | api (c : Api) (next : c.Result → Client γ)
  | forEach (fn : String → γ → Client γ) (context : γ) (next : Int × γ → Client γ)

/-- The run of a client. Marks stand where a call of the library and where a
callback begins and ends. -/
def Client.code {γ : Type} (host : Endian) : Client γ → Hid (Int × γ)
  | .done result context => pure (result, context)
  | .api c next => do
    mark .enterApi
    let r ← c.code host
    mark .leaveApi
    (next r).code host
  | .forEach fn context next => do
    mark .enterApi
    let r ← fcdForEach (fun path context => do
      mark (.enterCallback path)
      let r ← (fn path context).code host
      mark (.leaveCallback path)
      pure r) context
    mark .leaveApi
    (next r).code host

end Libfcd.Model
