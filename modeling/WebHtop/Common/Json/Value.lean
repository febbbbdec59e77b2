import WebHtop.Lib.Decimal
import WebHtop.Common.Bytes

/-!
# JSON values

`JSONValue` of common/json/utils.hpp with its typed accessors, and the helpers of
common/json/access.hpp. The type of doubles is a parameter, with the operations of the
language and of <charconv> that the program applies to it.
-/

namespace WebHtop.Common

/-- `double` as the program uses it. `fromChars` is `std::from_chars` on a whole text:
`none` when it reports an error or stops early. -/
class Double (D : Type) where
  isFinite : D → Bool
  lt : D → D → Bool
  ofInt64 : Int64 → D
  ofUInt64 : UInt64 → D
  toChars : D → Bytes
  fromChars : Bytes → Option D

/-- `double{}`. -/
def zero {D : Type} [Double D] : D := Double.ofInt64 0

inductive JSONValue (D : Type) where
  | null
  | bool (b : Bool)
  | int64 (i : Int64)
  | uint64 (u : UInt64)
  | double (d : D)
  | string (s : Bytes)
  | array (items : List (JSONValue D))
  | object (members : List (Bytes × JSONValue D))

namespace JSONValue

variable {D : Type}

/-- Induction with the hypothesis for every element and every member. -/
theorem tree_induction {P : JSONValue D → Prop} (null : P .null) (bool : ∀ b, P (.bool b))
    (int64 : ∀ i, P (.int64 i)) (uint64 : ∀ u, P (.uint64 u)) (double : ∀ d, P (.double d))
    (string : ∀ s, P (.string s)) (array : ∀ vs, (∀ v ∈ vs, P v) → P (.array vs))
    (object : ∀ ms, (∀ m ∈ ms, P m.2) → P (.object ms)) (v : JSONValue D) : P v := by
  refine @JSONValue.rec D P (fun vs => ∀ v ∈ vs, P v) (fun ms => ∀ m ∈ ms, P m.2) (fun m => P m.2)
    null bool int64 uint64 double string (fun vs h => array vs h) (fun ms h => object ms h)
    (by simp) ?_ (by simp) ?_ (fun _ _ h => h) v
  · intro v vs hv hvs w hw
    rcases List.mem_cons.mp hw with rfl | hw
    · exact hv
    · exact hvs w hw
  · intro m ms hm hms w hw
    rcases List.mem_cons.mp hw with rfl | hw
    · exact hm
    · exact hms w hw

/-! ## Equality -/

mutual

/-- Equality of trees, computed. -/
def same [DecidableEq D] : JSONValue D → JSONValue D → Bool
  | .null, .null => true
  | .bool a, .bool b => a == b
  | .int64 a, .int64 b => a == b
  | .uint64 a, .uint64 b => a == b
  | .double a, .double b => a == b
  | .string a, .string b => a == b
  | .array a, .array b => sameItems a b
  | .object a, .object b => sameMembers a b
  | _, _ => false

def sameItems [DecidableEq D] : List (JSONValue D) → List (JSONValue D) → Bool
  | [], [] => true
  | v :: vs, w :: ws => same v w && sameItems vs ws
  | _, _ => false

def sameMembers [DecidableEq D] : List (Bytes × JSONValue D) → List (Bytes × JSONValue D) → Bool
  | [], [] => true
  | m :: ms, n :: ns => m.1 == n.1 && same m.2 n.2 && sameMembers ms ns
  | _, _ => false

end

theorem same_iff [DecidableEq D] (v : JSONValue D) : ∀ w, same v w = true ↔ v = w := by
  refine @JSONValue.rec D (fun v => ∀ w, same v w = true ↔ v = w)
    (fun vs => ∀ ws, sameItems vs ws = true ↔ vs = ws)
    (fun ms => ∀ ns, sameMembers ms ns = true ↔ ms = ns)
    (fun m => ∀ w, same m.2 w = true ↔ m.2 = w)
    ?null ?bool ?int64 ?uint64 ?double ?string ?array ?object ?noItems ?items ?noMembers ?members
    ?member v
  case null =>
      intro w
      cases w <;> simp [same]
  case bool | int64 | uint64 | double | string =>
      intro a w
      cases w <;> simp [same]
  case array =>
      intro vs ih w
      cases w <;> simp [same, ih]
  case object =>
      intro ms ih w
      cases w <;> simp [same, ih]
  case noItems =>
      intro ws
      cases ws <;> simp [sameItems]
  case items =>
      intro v vs hv hvs ws
      cases ws <;> simp [sameItems, hv, hvs]
  case noMembers =>
      intro ns
      cases ns <;> simp [sameMembers]
  case members =>
      intro m ms hm hms ns
      cases ns <;> simp [sameMembers, hm, hms, Prod.ext_iff]
  case member => exact fun _ _ h => h

instance [DecidableEq D] : DecidableEq (JSONValue D) := fun v w => decidable_of_iff _ (same_iff v w)

/-! ## Typed accessors -/

def isArray : JSONValue D → Bool
  | .array _ => true
  | _ => false

def isObject : JSONValue D → Bool
  | .object _ => true
  | _ => false

def isString : JSONValue D → Bool
  | .string _ => true
  | _ => false

def asBool : JSONValue D → Option Bool
  | .bool b => some b
  | _ => none

def asInt64 : JSONValue D → Option Int64
  | .int64 i => some i
  | .uint64 u => if u.toNat ≤ 2 ^ 63 - 1 then some (Int64.ofNat u.toNat) else none
  | _ => none

def asUInt64 : JSONValue D → Option UInt64
  | .uint64 u => some u
  | .int64 i => if 0 ≤ i.toInt then some (UInt64.ofNat i.toInt.toNat) else none
  | _ => none

def asDouble [Double D] : JSONValue D → Option D
  | .double d => some d
  | .int64 i => some (Double.ofInt64 i)
  | .uint64 u => some (Double.ofUInt64 u)
  | _ => none

def asString : JSONValue D → Option Bytes
  | .string s => some s
  | _ => none

def asArray : JSONValue D → Option (List (JSONValue D))
  | .array items => some items
  | _ => none

def asObject : JSONValue D → Option (List (Bytes × JSONValue D))
  | .object members => some members
  | _ => none

/-- The first member of that name. -/
def lookup (members : List (Bytes × JSONValue D)) (key : Bytes) : Option (JSONValue D) :=
  (members.find? fun m => m.1 == key).map Prod.snd

/-- `operator[]` with a key. -/
def field (v : JSONValue D) (key : Bytes) : Option (JSONValue D) :=
  match v with
  | .object members => lookup members key
  | _ => none

def size : JSONValue D → Nat
  | .array items => items.length
  | .object members => members.length
  | _ => 0

end JSONValue

/-! ## common/json/access.hpp -/

namespace Access

variable {D : Type}

def uint (v : JSONValue D) (key : Bytes) : Option UInt64 := (v.field key).bind JSONValue.asUInt64

def number [Double D] (v : JSONValue D) (key : Bytes) : Option D :=
  ((v.field key).bind JSONValue.asDouble).filter Double.isFinite

def text (v : JSONValue D) (key : Bytes) (fallback : Bytes := []) : Bytes :=
  ((v.field key).bind JSONValue.asString).getD fallback

def boolean (v : JSONValue D) (key : Bytes) : Bool :=
  ((v.field key).bind JSONValue.asBool).getD false

end Access
end WebHtop.Common
