import Mathlib.Data.List.Basic

/-! # Byte strings

    `std::string` is a sequence of bytes.  Keys, subjects, payloads and the
    texts of errors are all byte strings; the literals of the source are
    written with `str`.
-/

namespace DynamoCpp

/-- `std::string`: a sequence of bytes. -/
abbrev Bytes : Type := List UInt8

/-- The bytes of an ASCII literal of the source. -/
def str (s : String) : Bytes := s.toList.map fun c => c.toNat.toUInt8

end DynamoCpp
