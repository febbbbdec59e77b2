import WebHtop.Common.Json.Value
import WebHtop.Lib.JsonLexis

/-!
# JSON texts and the trees they denote

The grammar of RFC 8259 over the lexis of `Lib.Json`, as a relation between a text and
the tree it denotes, and the size limits a reader may set on trees. A number without
fraction and exponent denotes a 64-bit integer, any other one the double it converts to.
-/

namespace WebHtop.Common

open WebHtop.Lib WebHtop.Lib.Json WebHtop.Lib.Decimal

variable {D : Type}

namespace JSONValue

mutual

/-- Nesting depth; a value without components has depth 1. -/
def depth (v : JSONValue D) : Nat :=
  match v with
  | .array items => depthItems items + 1
  | .object members => depthMembers members + 1
  | _ => 1
termination_by structural v

def depthItems (vs : List (JSONValue D)) : Nat :=
  match vs with
  | [] => 0
  | v :: vs => max (depth v) (depthItems vs)
termination_by structural vs

def depthMembers (ms : List (Bytes × JSONValue D)) : Nat :=
  match ms with
  | [] => 0
  | (_, v) :: ms => max (depth v) (depthMembers ms)
termination_by structural ms

end

mutual

/-- The number of values in a tree. -/
def nodes (v : JSONValue D) : Nat :=
  match v with
  | .array items => nodesItems items + 1
  | .object members => nodesMembers members + 1
  | _ => 1
termination_by structural v

def nodesItems (vs : List (JSONValue D)) : Nat :=
  match vs with
  | [] => 0
  | v :: vs => nodes v + nodesItems vs
termination_by structural vs

def nodesMembers (ms : List (Bytes × JSONValue D)) : Nat :=
  match ms with
  | [] => 0
  | (_, v) :: ms => nodes v + nodesMembers ms
termination_by structural ms

end

mutual

/-- In every object the keys are pairwise distinct and at most `n`. -/
def KeysWithin (n : Nat) (v : JSONValue D) : Prop :=
  match v with
  | .array items => KeysWithinItems n items
  | .object members =>
    (members.map Prod.fst).Nodup ∧ members.length ≤ n ∧ KeysWithinMembers n members
  | _ => True
termination_by structural v

def KeysWithinItems (n : Nat) (vs : List (JSONValue D)) : Prop :=
  match vs with
  | [] => True
  | v :: vs => KeysWithin n v ∧ KeysWithinItems n vs
termination_by structural vs

def KeysWithinMembers (n : Nat) (ms : List (Bytes × JSONValue D)) : Prop :=
  match ms with
  | [] => True
  | (_, v) :: ms => KeysWithin n v ∧ KeysWithinMembers n ms
termination_by structural ms

end

theorem one_le_nodes (v : JSONValue D) : 1 ≤ v.nodes := by
  cases v <;> simp [nodes]

theorem one_le_depth (v : JSONValue D) : 1 ≤ v.depth := by
  cases v <;> simp [depth]

end JSONValue

/-- The numbers as the program reads them: `Number t v` reads the whole text `t`. -/
inductive Number [Double D] : Bytes → JSONValue D → Prop
  | nonneg {i : Bytes} : IntPart i → value i < 2 ^ 64 → Number i (.uint64 (UInt64.ofNat (value i)))
  | neg {i : Bytes} : IntPart i → value i ≤ 2 ^ 63 →
      Number (0x2D :: i) (.int64 (Int64.ofInt (-(value i : Int))))
  | real {sign i f e : Bytes} {d : D} : (sign = [] ∨ sign = [0x2D]) → IntPart i → FracPart f →
      ExpPart e → ¬ (f = [] ∧ e = []) → Double.fromChars (sign ++ i ++ f ++ e) = some d →
      Double.isFinite d = true → Number (sign ++ i ++ f ++ e) (.double d)

mutual

/-- `ValueText N s v t`: a value that denotes `v` leads from `s` to `t`, where `N x v` reads
the number `x`. -/
inductive ValueText (N : Bytes → JSONValue D → Prop) : Bytes → JSONValue D → Bytes → Prop
  | null {t : Bytes} : ValueText N (lit "null" ++ t) .null t
  | boolTrue {t : Bytes} : ValueText N (lit "true" ++ t) (.bool true) t
  | boolFalse {t : Bytes} : ValueText N (lit "false" ++ t) (.bool false) t
  | number {x t : Bytes} {v : JSONValue D} : N x v → ValueText N (x ++ t) v t
  | string {s d t : Bytes} : StringBody s d t → ValueText N (0x22 :: s) (.string d) t
  | emptyArray {s t : Bytes} : Ws s (0x5D :: t) → ValueText N (0x5B :: s) (.array []) t
  | array {s t : Bytes} {v : JSONValue D} {vs : List (JSONValue D)} :
      ItemsText N s (v :: vs) t → ValueText N (0x5B :: s) (.array (v :: vs)) t
  | emptyObject {s t : Bytes} : Ws s (0x7D :: t) → ValueText N (0x7B :: s) (.object []) t
  | object {s t : Bytes} {m : Bytes × JSONValue D} {ms : List (Bytes × JSONValue D)} :
      MembersText N s (m :: ms) t → ValueText N (0x7B :: s) (.object (m :: ms)) t

/-- Elements separated by commas, up to and including the closing bracket. -/
inductive ItemsText (N : Bytes → JSONValue D → Prop) : Bytes → List (JSONValue D) → Bytes → Prop
  | last {s a b t : Bytes} {v : JSONValue D} : Ws s a → ValueText N a v b → Ws b (0x5D :: t) →
      ItemsText N s [v] t
  | more {s a b c t : Bytes} {v : JSONValue D} {vs : List (JSONValue D)} : Ws s a →
      ValueText N a v b → Ws b (0x2C :: c) → ItemsText N c vs t → ItemsText N s (v :: vs) t

/-- Members separated by commas, up to and including the closing brace. -/
inductive MembersText (N : Bytes → JSONValue D → Prop) :
    Bytes → List (Bytes × JSONValue D) → Bytes → Prop
  | last {s a b c d e t k : Bytes} {v : JSONValue D} : Ws s (0x22 :: a) → StringBody a k b →
      Ws b (0x3A :: c) → Ws c d → ValueText N d v e → Ws e (0x7D :: t) → MembersText N s [(k, v)] t
  | more {s a b c d e f t k : Bytes} {v : JSONValue D} {ms : List (Bytes × JSONValue D)} :
      Ws s (0x22 :: a) → StringBody a k b → Ws b (0x3A :: c) → Ws c d → ValueText N d v e →
      Ws e (0x2C :: f) → MembersText N f ms t → MembersText N s ((k, v) :: ms) t

end

theorem ItemsText.ws {N : Bytes → JSONValue D → Prop} {s s' t : Bytes} {vs : List (JSONValue D)} (hs : Ws s s')
    (h : ItemsText N s' vs t) : ItemsText N s vs t := by
  cases h with
  | last h1 h2 h3 => exact .last (hs.trans h1) h2 h3
  | more h1 h2 h3 h4 => exact .more (hs.trans h1) h2 h3 h4

theorem MembersText.ws {N : Bytes → JSONValue D → Prop} {s s' t : Bytes} {ms : List (Bytes × JSONValue D)} (hs : Ws s s')
    (h : MembersText N s' ms t) : MembersText N s ms t := by
  cases h with
  | last h1 h2 h3 h4 h5 h6 => exact .last (hs.trans h1) h2 h3 h4 h5 h6
  | more h1 h2 h3 h4 h5 h6 h7 => exact .more (hs.trans h1) h2 h3 h4 h5 h6 h7

/-- A JSON text: one value between optional whitespace, and nothing else. -/
def JsonText (N : Bytes → JSONValue D → Prop) (x : Bytes) (v : JSONValue D) : Prop :=
  ∃ a b, Ws x a ∧ ValueText N a v b ∧ Ws b []

end WebHtop.Common
