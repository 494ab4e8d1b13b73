import Libfcd.Model.Common

namespace Libfcd.Proofs
open Memory Model

/-- What a host stores after conversion does not depend on its byte order. -/
theorem store16_convert (host : Endian) (v : UInt16) :
    store16 host (convertLeU16 host v) = leBytes 2 v.toNat := by
  cases host with
  | little => rfl
  | big => exact store16_big_swap16 v

theorem store32_convert (host : Endian) (v : UInt32) :
    store32 host (convertLeU32 host v) = leBytes 4 v.toNat := by
  cases host with
  | little => rfl
  | big => exact store32_big_swap32 v

/-- Nor does what it makes of the bytes it received. -/
theorem convert_load16 (host : Endian) {xs : Bytes} (h : xs.length = 2) :
    convertLeU16 host (load16 host xs) = load16 .little xs := by
  cases host with
  | little => rfl
  | big => exact swap16_load16_big h

theorem convert_load32 (host : Endian) (xs : Bytes) (h : xs.length = 4) :
    convertLeU32 host (load32 host xs) = load32 .little xs := by
  cases host with
  | little => rfl
  | big => exact swap32_load32_big h

end Libfcd.Proofs
