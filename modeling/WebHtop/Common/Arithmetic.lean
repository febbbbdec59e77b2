import WebHtop.Common.Json.Serialize
import WebHtop.Lib.Binary64

/-!
# Arithmetic on doubles

The operations of the language and the library that collectors and client apply to `double`,
with two instances: binary64 as it is, and exact rationals.
-/

namespace WebHtop.Common

open WebHtop.Lib

class Arithmetic (D : Type) extends Double D where
  add : D → D → D
  sub : D → D → D
  mul : D → D → D
  div : D → D → D
  le : D → D → Bool
  ceil : D → D
  /-- `static_cast<int>`. -/
  trunc : D → Int
  /-- `std::fixed` with a precision. -/
  fixed : D → Nat → Bytes
  /-- What `>>` stores for the characters it has collected, and whether it succeeds. -/
  fromStream : Bytes → D × Bool

namespace Arithmetic

variable {D : Type} [Arithmetic D]

/-- A literal such as `100.0`, and `static_cast<double>` of a signed integer. -/
def ofInt (i : Int64) : D := Double.ofInt64 i

def max (a b : D) : D := if Double.lt a b then b else a

def min (a b : D) : D := if Double.lt b a then b else a

/-- `std::clamp`. -/
def clamp (v lo hi : D) : D := if Double.lt v lo then lo else if Double.lt hi v then hi else v

/-- `a != b`. -/
def ne (a b : D) : Bool := !(le a b && le b a)

end Arithmetic

instance : Arithmetic Binary64 where
  isFinite := Binary64.isFinite
  lt := Binary64.lt
  ofInt64 i := Binary64.ofInt i.toInt
  ofUInt64 u := Binary64.ofInt u.toNat
  toChars := Binary64.toChars
  fromChars := Binary64.fromChars
  add := Binary64.add
  sub := Binary64.sub
  mul := Binary64.mul
  div := Binary64.div
  le := Binary64.le
  ceil := Binary64.ceil
  trunc := Binary64.trunc
  fixed := Binary64.fixed
  fromStream := Binary64.fromStream

/-! ## Exact arithmetic -/

namespace Exact

def unsigned (t : Bytes) : Bytes := if t.head? = some (ch '-') then t.tail else t

def fromChars (t : Bytes) : Option ℚ :=
  (Binary64.decimalValue (unsigned t)).map fun q => if t.head? = some (ch '-') then -q else q

/-- An integer, or a fraction of two. -/
def toChars (q : ℚ) : Bytes :=
  if q.den = 1 then intToString q.num else intToString q.num ++ ch '/' :: intToString q.den

end Exact

/-- Every rational is a double here, and no operation rounds. -/
instance : Arithmetic ℚ where
  isFinite _ := true
  lt a b := decide (a < b)
  ofInt64 i := i.toInt
  ofUInt64 u := u.toNat
  toChars := Exact.toChars
  fromChars := Exact.fromChars
  add a b := a + b
  sub a b := a - b
  mul a b := a * b
  div a b := a / b
  le a b := decide (a ≤ b)
  ceil q := ⌈q⌉
  trunc q := if q < 0 then ⌈q⌉ else ⌊q⌋
  fixed q precision := Binary64.fixedDecimal (decide (q < 0)) |q| precision
  fromStream t := ((Exact.fromChars t).getD 0, (Exact.fromChars t).isSome)

theorem zero_rat : (zero : ℚ) = 0 := by
  show (((0 : Int64).toInt : Int) : ℚ) = 0
  simp

end WebHtop.Common
