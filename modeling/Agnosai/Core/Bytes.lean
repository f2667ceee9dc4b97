import Mathlib.Data.List.Basic

/-!
# Core — Bytes

A `Str` is a run of bytes, in no particular encoding. With it stand the constants and predicates of
`units.cyr`.
-/

namespace Agnosai

abbrev Bytes := List UInt8

instance : LawfulBEq Bytes := inferInstanceAs (LawfulBEq (List UInt8))

/-- The bytes of an ASCII literal. -/
def ascii (s : String) : Bytes := s.toList.map fun c => c.toNat.toUInt8

/-- `AGNOSAI_NS_PER_SEC`. -/
def nsPerSec : Nat := 1000000000

/-- `_agnosai_is_digit`. -/
def isDigit (b : UInt8) : Bool := 48 ≤ b && b ≤ 57

/-- `_agnosai_is_alnum`. -/
def isAlnum (b : UInt8) : Bool := isDigit b || (65 ≤ b && b ≤ 90) || (97 ≤ b && b ≤ 122)

end Agnosai
