import Libfcd.Model.Bootloader
import Libfcd.Model.Strings

namespace Libfcd.Model
open Interaction Memory

/-- The bytes of a block with their indices, sixteen to a line. -/
def printBlock : List (UInt8 × Nat) → Hid Unit
  | [] => pure ()
  | (x, index) :: rest => do
    let delim := if index &&& 0xf = 0xf then "\n" else " "
    print .stdout (hex 2 x.toNat ++ delim)
    printBlock rest

/-- The part of `funcube_debug` between opening and closing. `query` is what the
local array happens to hold at first. -/
def diagnose (host : Endian) (query : Bytes) (path : String) (fcd : Fcd) : Hid Int := do
  match ← fcdQuery (some fcd) (some (query.map some)) 64 with
  | (false, _) => do
    print .stderr ("Query failed for [" ++ path ++ "]\n")
    pure (-1)
  | (true, query) => do
    let query ← .expect (query.bind Buffer.written)
    print .stdout ("[" ++ path ++ "]\t" ++ textOf (cString query) ++ "\n")
    match ← fcdBlGetAddressRange host (some fcd) with
    | .error _ => pure 0
    | .ok (start, stop) => do
      print .stdout ("\tRange: 0x" ++ hex 8 start.toNat ++ " - 0x" ++ hex 8 stop.toNat ++ "\n")
      let _ ← fcdBlSetAddress host (some fcd) start
      match ← fcdBlReadBlock (some fcd) (some (Buffer.fresh 48)) with
      | (.error _, _) => pure 0
      | (.ok (), block) => do
        let block ← .expect (block.bind Buffer.written)
        printBlock block.zipIdx
        pure 0

def funcubeDebug (host : Endian) (query : Bytes) (path : String) (context : Unit) :
    Hid (Int × Unit) := do
  match ← fcdOpen (some path) with
  | none => do
    print .stderr ("Could not open [" ++ path ++ "]\n")
    pure (-1, context)
  | some fcd => do
    let result ← diagnose host query path fcd
    fcdClose (some fcd)
    pure (result, context)

def exitSuccess : Int := 0
def exitFailure : Int := 1

/-- `main` of the `fcd` tool. The local arrays may differ from call to call. -/
def fcdMain (host : Endian) (query : String → Bytes) : Hid Int := do
  let (result, _) ← fcdForEach (fun path => funcubeDebug host (query path) path) ()
  pure (if result ≠ 0 then exitFailure else exitSuccess)

end Libfcd.Model
