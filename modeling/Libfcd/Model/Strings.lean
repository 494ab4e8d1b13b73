import Libfcd.Memory.Buffer

namespace Libfcd.Model
open Memory

/-- The characters of a C string: everything before the first NUL. -/
def cString (bytes : Bytes) : Bytes := bytes.takeWhile (· ≠ 0)

/-- Bytes as `%s` puts them out, one character each. -/
def textOf (bytes : Bytes) : String := String.ofList (bytes.map (fun x => Char.ofNat x.toNat))

/-- `%0<width>x`. -/
def hex (width n : Nat) : String := String.ofList ((Nat.toDigits 16 n).leftpad width '0')

/-- `isspace`: the blank, and the control characters from tab to return. -/
def isSpace (c : Char) : Bool := c = ' ' ∨ (9 ≤ c.toNat ∧ c.toNat ≤ 13)

def digitOf (c : Char) : Option Nat :=
  if c.isDigit then some (c.toNat - 48)
  else if c.isLower then some (c.toNat - 97 + 10)
  else if c.isUpper then some (c.toNat - 65 + 10)
  else none

/-- The value of the digits that lead, on top of those already read. -/
def readDigits (base : Nat) : List Char → Option Nat → Option Nat
  | [], acc => acc
  | c :: cs, acc =>
    match digitOf c with
    | some d => if d < base then readDigits base cs (some (acc.getD 0 * base + d)) else acc
    | none => acc

/-- An integer in the notation of C. A lone `0x` still has its zero. -/
def readInteger : List Char → Option Nat
  | '0' :: 'x' :: cs => some ((readDigits 16 cs none).getD 0)
  | '0' :: 'X' :: cs => some ((readDigits 16 cs none).getD 0)
  | '0' :: cs => readDigits 8 cs (some 0)
  | cs => readDigits 10 cs none

/-- `strtoul(s, &end, 0)` with 64-bit `unsigned long`; `none` when nothing could
be read and `end` stays at the beginning. -/
def strtoul (s : String) : Option UInt64 :=
  let clip (n : Nat) : UInt64 :=
    if n < UInt64.size then UInt64.ofNat n else UInt64.ofNat (UInt64.size - 1)
  match s.toList.dropWhile isSpace with
  | '-' :: cs => (readInteger cs).map (fun n => if n < UInt64.size then -clip n else clip n)
  | '+' :: cs => (readInteger cs).map clip
  | cs => (readInteger cs).map clip

end Libfcd.Model
