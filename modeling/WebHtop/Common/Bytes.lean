import Mathlib.Algebra.BigOperators.Group.List.Basic
import Mathlib.Data.Int.Log
import Mathlib.Data.List.Induction
import Mathlib.Data.List.Nodup
import Mathlib.Data.List.SplitBy
import Mathlib.Data.Nat.Digits.Lemmas
import Mathlib.Data.Rat.Floor
import Mathlib.Tactic.FieldSimp
import Mathlib.Tactic.Linarith
import Mathlib.Tactic.Positivity

/-!
# Byte strings

`std::string` and `std::string_view` are byte sequences: nothing in the program
makes them well-formed UTF-8 before a validator has looked at them.
-/

namespace WebHtop

abbrev Bytes := List UInt8

/-- The bytes of an ASCII literal of the source. -/
def lit (s : String) : Bytes := s.toList.map fun c => UInt8.ofNat c.toNat

/-- A character literal. -/
def ch (c : Char) : UInt8 := UInt8.ofNat c.toNat

end WebHtop
