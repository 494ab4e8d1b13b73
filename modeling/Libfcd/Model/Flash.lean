import Libfcd.Model.Diagnose

namespace Libfcd.Model
open Interaction Memory

def actionReset : UInt32 := (1 : UInt32) <<< 0
def actionErase : UInt32 := (1 : UInt32) <<< 1
def actionWrite : UInt32 := (1 : UInt32) <<< 2
def actionVerify : UInt32 := (1 : UInt32) <<< 3

/-- A block of memory with the contents of the image file. -/
structure Image where
  addr : Nat
  bytes : Bytes
  deriving DecidableEq, Repr

structure FlashContext where
  actions : UInt32
  delay : UInt32
  data : Option Image
  size : UInt64
  deriving DecidableEq, Repr

def FlashContext.wants (ctx : FlashContext) (flags : UInt32) : Bool := ctx.actions &&& flags ≠ 0

/-- What can be read behind `ctx->data`: nothing behind NULL. -/
def FlashContext.image (ctx : FlashContext) : Bytes := (ctx.data.map Image.bytes).getD []

def flashErrorMessage : List String :=
  ["unknown error", "get_address_range failed", "invalid address range",
    "invalid firmware image", "set address failed", "write failed", "verify failed"]

def errorMsg (result : Int) : String :=
  if -6 ≤ result ∧ result ≤ -1 then flashErrorMessage.getD (-result).toNat ""
  else flashErrorMessage.getD 0 ""

def fsize (stream : Nat) : Hid Int := do
  if (← fseek stream .stop) = -1 then pure (-1)
  else do
    let size ← ftell stream
    if size = -1 then pure (-1)
    else if (← fseek stream .set) = -1 then pure (-1)
    else pure size

/-- The new buffer and what is stored through `len`. -/
def freadAll (stream : Nat) : Hid (Option (Image × UInt64)) := do
  let size ← fsize stream
  if size = -1 then pure none
  else do
    let len := UInt64.ofInt size
    match ← malloc len.toNat with
    | none => pure none
    | some buffer => do
      let bytes ← fread stream len.toNat
      -- one element of that size, so a size of zero reads none
      if len ≠ 0 ∧ len.toNat ≤ bytes.length then
        pure (some (⟨buffer, bytes.take len.toNat⟩, len))
      else do
        free buffer
        pure none

/-- A status as the `int` it is returned in. -/
def toInt : Status → Int
  | .ok () => 0
  | .error _ => -1

/-- A message, unless the step before went well. -/
def complain (result : Int) (text : String) : Hid Unit :=
  if result ≠ 0 then print .stderr text else pure ()

/-! The three steps of `funcube_flash` for a dongle that was opened. Each takes
the result so far and is passed over when that is not 0 or it was not asked for. -/

def flashErase (path : String) (fcd : Fcd) (ctx : FlashContext) : Hid Int :=
  if ctx.wants actionErase then do
    let result ← fcdBlEraseApplication (some fcd)
    complain (toInt result) ("[" ++ path ++ "] erase failed\n")
    pure (toInt result)
  else pure 0

def flashWrite (host : Endian) (path : String) (fcd : Fcd) (ctx : FlashContext) (result : Int) :
    Hid Int :=
  if result = 0 ∧ ctx.wants actionWrite then do
    let result ← fcdBlFlashWrite host (some fcd) ctx.image ctx.size.toUInt32
    complain result ("[" ++ path ++ "] write: " ++ errorMsg result ++ "\n")
    pure result
  else pure result

def flashVerify (host : Endian) (path : String) (fcd : Fcd) (ctx : FlashContext) (result : Int) :
    Hid Int :=
  if result = 0 ∧ ctx.wants actionVerify then do
    let result ← fcdBlFlashVerify host (some fcd) ctx.image ctx.size.toUInt32
    complain result ("[" ++ path ++ "] verify: " ++ errorMsg result ++ "\n")
    pure result
  else pure result

def funcubeFlash (host : Endian) (path : String) (ctx : FlashContext) :
    Hid (Int × FlashContext) := do
  match ← fcdOpen (some path) with
  | none => do
    fcdClose none
    pure (-1, ctx)
  | some fcd => do
    let result ← flashErase path fcd ctx
    let result ← flashWrite host path fcd ctx result
    let result ← flashVerify host path fcd ctx result
    fcdClose (some fcd)
    pure (result, ctx)

/-- The codes of `getopt_long`; `other` is any that the `switch` does not list. -/
inductive Opt where
  | input
  | reset
  | noReset
  | erase
  | noErase
  | write
  | noWrite
  | verify
  | noVerify
  | flash
  | help
  | version
  | other
  deriving DecidableEq, Repr

structure Parsed where
  c : Opt
  optarg : Option String
  deriving DecidableEq, Repr

def die : Hid Int := do
  print .stderr "Try `fcd-flash --help' for more information.\n"
  pure exitFailure

/-- The notice under the version line is left out. -/
def version : Hid Int := do
  print .stdout "fcd-flash (libfcd) 0.0\n"
  pure exitSuccess

def usageLines : List String :=
  ["Usage: fcd-flash [OPTION]...",
    "Perform firmware operations on all present FUNcube dongles.",
    "",
    "Mandatory arguments to long options are mandatory for short options too.",
    "      --flash=FILE  perform a full flash upgrade from firmware image",
    "                    (equivalent to `-r -ewv -iFILE`)",
    "  -i, --input=FILE  read image from FILE",
    "  -r, --reset[=MS]  reset to/from bootloader with a MS millisecond",
    "                    delay (default is 2000 ms)",
    "  -R, --no-reset    do not reset",
    "  -e, --erase       erase flash",
    "  -E, --no-erase    do not erase flash",
    "  -w, --write       write image to flash",
    "  -W, --no-write    do not write to flash",
    "  -v, --verify      verify flash against image",
    "  -V, --no-verify   do not verify flash",
    "      --help        display this help and exit",
    "      --version     output version information and exit",
    "",
    "Examples:",
    "fcd-flash --flash=export18b.bin",
    "  Write `export18b.bin` to FUNcube dongle",
    "fcd-flash --flash=export18b.bin --no-erase --no-write",
    "  Reset and verify flash matches `export18b.bin`",
    "fcd-flash -r1000 -vi export18b.bin",
    "  Reset with 1 second delay and verify flash matches `export18b.bin`"]

/-- Each `puts` ends its line. -/
def putLines : List String → Hid Unit
  | [] => pure ()
  | line :: rest => do
    print .stdout (line ++ "\n")
    putLines rest

def usage : Hid Int := do
  putLines usageLines
  pure exitSuccess

/-- One round of the option loop: an exit status, or the variables after it. -/
def handleOption (option : Parsed) (context : FlashContext) (filename : Option String) :
    Hid (Except Int (FlashContext × Option String)) :=
  let set flags := pure (.ok ({ context with actions := context.actions ||| flags }, filename))
  let clear flags := pure (.ok ({ context with actions := context.actions &&& ~~~flags }, filename))
  match option.c with
  | .input => pure (.ok (context, option.optarg))
  | .reset =>
    let context := { context with actions := context.actions ||| actionReset }
    match option.optarg with
    | none => pure (.ok (context, filename))
    | some optarg =>
      match strtoul optarg with
      | some delay => pure (.ok ({ context with delay := delay.toUInt32 }, filename))
      | none => do
        print .stderr "Invalid reset delay\n"
        let status ← die
        pure (.error status)
  | .noReset => clear actionReset
  | .erase => set actionErase
  | .noErase => clear actionErase
  | .write => set actionWrite
  | .noWrite => clear actionWrite
  | .verify => set actionVerify
  | .noVerify => clear actionVerify
  | .flash =>
    let actions := actionReset ||| actionErase ||| actionWrite ||| actionVerify
    pure (.ok ({ context with actions }, option.optarg))
  | .help => do
    let status ← usage
    pure (.error status)
  | .version => do
    let status ← version
    pure (.error status)
  | .other => do
    let status ← die
    pure (.error status)

def parseOptions : List Parsed → FlashContext → Option String →
    Hid (Except Int (FlashContext × Option String))
  | [], context, filename => pure (.ok (context, filename))
  | option :: rest, context, filename => do
    match ← handleOption option context filename with
    | .error status => pure (.error status)
    | .ok (context, filename) => parseOptions rest context filename

/-- The image in the context, or nothing after an error message. -/
def readImage (filename : String) (context : FlashContext) : Hid (Option FlashContext) := do
  match ← fopen filename with
  | none => do
    perror "open"
    pure none
  | some f => do
    let contents ← freadAll f
    fclose f
    match contents with
    | none => do
      perror "read"
      pure none
    | some (image, size) => pure (some { context with data := some image, size })

/-- A reset of all dongles, if it was asked for. -/
def resetAll (context : FlashContext) (reset : UInt32 → Hid Unit) : Hid Unit :=
  if context.wants actionReset then reset context.delay else pure ()

/-- `free(context.data)` behind its test. -/
def releaseImage (context : FlashContext) : Hid Unit :=
  match context.data with
  | some image => free image.addr
  | none => pure ()

/-- `main` from the first reset on. -/
def flashAll (host : Endian) (context : FlashContext) : Hid Int := do
  resetAll context fcdResetBootloader
  let (result, context) ← fcdForEach (funcubeFlash host) context
  resetAll context fcdResetApplication
  releaseImage context
  pure (if result ≠ 0 then exitFailure else exitSuccess)

/-- `main` of the `fcd-flash` tool. `getoptLong` stands for the C library's
option parser: the options it reports one after the other, and the operands
`argv[optind]` onwards that are left at the end. -/
def fcdFlashMain (host : Endian) (getoptLong : List String → List Parsed × List String)
    (argv : List String) : Hid Int := do
  match ← parseOptions (getoptLong argv).1 ⟨0, 2000, none, 0⟩ none with
  | .error status => pure status
  | .ok (context, filename) =>
    match (getoptLong argv).2 with
    | operand :: _ => do
      print .stderr ("extra operand: " ++ operand ++ "\n")
      die
    | [] =>
      if context.actions = 0 then do
        print .stderr "Nothing to do\n"
        die
      else if context.wants (actionWrite ||| actionVerify) then
        match filename with
        | none => do
          print .stderr "No image file specfied\n"
          die
        | some filename => do
          match ← readImage filename context with
          | none => pure exitFailure
          | some context => flashAll host context
      else flashAll host context

end Libfcd.Model
