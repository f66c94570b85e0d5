import Mathlib.Data.List.Basic

/-!
# Texts

A `std::string` and a string literal of the source are the list of their bytes.
-/

set_option autoImplicit false

namespace BacsEnv

/-- The bytes of a text. -/
abbrev Text := List UInt8

/-- The bytes of a string literal of the source. -/
def text (s : String) : Text := s.toList.map fun c => UInt8.ofNat c.toNat

end BacsEnv
