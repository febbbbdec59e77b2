import WebHtop.Common.Json.Clean
import WebHtop.Common.Json.Reals

/-!
# Trees that have been written and read

What the parser makes of the text of a tree: integers come back with the unsigned type where there
is a choice, doubles as the numbers that their texts are, and a lookup finds the same values.
-/

namespace WebHtop.Common

open WebHtop.Lib WebHtop.Lib.Json WebHtop.Lib.Decimal JSONValue

variable {D E : Type}

/-! ## What two readers of one text have in common -/

section

variable {N : Bytes → JSONValue D → Prop} {M : Bytes → JSONValue E → Prop} {v : JSONValue D}
  {w : JSONValue E}

/-- Trees of one text have the same number of values. -/
theorem Twin.nodes_eq (hN : ∀ x v, N x v → v.nodes = 1) (hM : ∀ x w, M x w → w.nodes = 1)
    (h : Twin N M v w) : v.nodes = w.nodes := by
  refine @Twin.rec D E N M (fun v w _ => v.nodes = w.nodes)
    (fun vs ws _ => nodesItems vs = nodesItems ws)
    (fun ms ns _ => nodesMembers ms = nodesMembers ns)
    ?null ?bool ?number ?string ?array ?object ?noItems ?items ?noMembers ?members v w h
  case null => rfl
  case bool => exact fun _ => rfl
  case number => exact fun hv hw => (hN _ _ hv).trans (hM _ _ hw).symm
  case string => exact fun _ => rfl
  case array => exact fun _ ih => congrArg (· + 1) ih
  case object => exact fun _ ih => congrArg (· + 1) ih
  case noItems => rfl
  case items =>
    intro v w vs ws _ _ hv hvs
    rw [nodesItems, nodesItems, hv, hvs]
  case noMembers => rfl
  case members =>
    intro key v w ms ns _ _ hv hms
    rw [nodesMembers, nodesMembers, hv, hms]

/-- What holds of every number that has been read holds throughout the tree. -/
theorem Twin.clean {P Q : D → Prop}
    (hN : ∀ x v w, N x v → M x w → v.Clean P → v.Clean Q) (h : Twin N M v w) :
    v.Clean P → v.Clean Q := by
  refine @Twin.rec D E N M (fun v w _ => v.Clean P → v.Clean Q)
    (fun vs ws _ => CleanItems P vs → CleanItems Q vs)
    (fun ms ns _ => CleanMembers P ms → CleanMembers Q ms)
    ?null ?bool ?number ?string ?array ?object ?noItems ?items ?noMembers ?members v w h
  case null => exact fun hc => hc
  case bool => exact fun _ hc => hc
  case number => exact fun hv hw hc => hN _ _ _ hv hw hc
  case string => exact fun _ hc => hc
  case array => exact fun _ ih hc => ih hc
  case object => exact fun _ ih hc => ih hc
  case noItems => exact fun hc => hc
  case items => exact fun _ _ hv hvs hc => ⟨hv hc.1, hvs hc.2⟩
  case noMembers => exact fun hc => hc
  case members => exact fun _ _ hv hms hc => ⟨hc.1, hv hc.2.1, hms hc.2.2⟩

end

/-- Integers and doubles keep the strings as they are. -/
theorem clean_reread {P : D → Prop} (v : JSONValue D) :
    (v.reread integer .double).Clean P ↔ v.Clean P := by
  have hinteger : ∀ i : Int, (integer (D := D) i).Clean P := by
    intro i
    unfold integer
    split
    · trivial
    · trivial
  refine @JSONValue.rec D (fun v => (v.reread integer .double).Clean P ↔ v.Clean P)
    (fun vs => CleanItems P (rereadItems integer .double vs) ↔ CleanItems P vs)
    (fun ms => CleanMembers P (rereadMembers integer .double ms) ↔ CleanMembers P ms)
    (fun m => (m.2.reread integer .double).Clean P ↔ m.2.Clean P)
    ?null ?bool ?int64 ?uint64 ?double ?string ?array ?object ?noItems ?items ?noMembers ?members
    ?member v
  case null => exact Iff.rfl
  case bool => exact fun _ => Iff.rfl
  case int64 => exact fun i => iff_of_true (hinteger _) trivial
  case uint64 => exact fun u => iff_of_true (hinteger _) trivial
  case double => exact fun _ => Iff.rfl
  case string => exact fun _ => Iff.rfl
  case array => exact fun _ ih => ih
  case object => exact fun _ ih => ih
  case noItems => exact Iff.rfl
  case items => exact fun _ _ hv hvs => and_congr hv hvs
  case noMembers => exact Iff.rfl
  case members => exact fun _ _ hm hms => and_congr Iff.rfl (and_congr hm hms)
  case member => exact fun _ _ h => h

variable [Double D] [LawfulDouble D]

/-- The numbers of a text as the tree has them. -/
def Spelled (x : Bytes) (v : JSONValue D) : Prop :=
  (∃ i : Int, x = intToString i ∧ v = integer i) ∨ ∃ d, doubleText d = some x ∧ v = .double d

theorem numeric_spelled : Numeric (Spelled (D := D)) := by
  rintro x v (⟨i, rfl, -⟩ | ⟨d, hd, -⟩)
  · exact Integral.numberText_intToString i
  · obtain ⟨hf, rfl⟩ := doubleText_eq hd
    exact LawfulDouble.numberText_toChars hf

/-- The doubles of a tree whose text is read are not wide, and the tree is not too large. -/
theorem parse_toString_plain [PlainNotation D] {v w : JSONValue D} {indent : Int32} {x : Bytes}
    (hc : v.Clean fun d => Double.isFinite d = true) (hx : v.toString indent = some x)
    (hw : parse x = some w) : (v.Clean fun d => ¬ Wide d) ∧ v.nodes ≤ 1000000 := by
  have hrepaired := repaired_clean v hc
  have hwrites : ValueWrites (Spelled (D := D)) (fun d => Double.isFinite d = true) integer
      .double v :=
    serializeTo_text (fun i _ _ => .inl ⟨i, rfl, rfl⟩) (fun d _ _ hd => .inr ⟨d, hd, rfl⟩) v
  have htext := hwrites indent 0 x (hrepaired.symm ▸ hc) hx []
  rw [List.append_nil, hrepaired] at htext
  obtain ⟨-, hread, -, hnodes, -⟩ := parse_sound hw
  have htwin := JsonText.twin numeric_spelled numeric_number ⟨x, [], .nil, htext, .nil⟩ hread
  have hshape := reread_shape (leaf_integer (D := D)) (fun d : D => (⟨rfl, rfl, fun _ => trivial⟩ :
    Leaf (JSONValue.double d))) 4096 v
  constructor
  · refine (clean_reread v).mp (htwin.clean ?_ ((clean_reread v).mpr hc))
    rintro y u u' (⟨i, -, rfl⟩ | ⟨d, hd, rfl⟩) hu' hu
    · unfold integer
      split
      · trivial
      · trivial
    · obtain ⟨hf, rfl⟩ := doubleText_eq hd
      exact fun hwide => not_number_wide hf hwide u' hu'
  · have hsame := htwin.nodes_eq (fun y u hu => ?_) (fun y u hu => hu.leaf.1.1)
    · rw [← hshape.1, hsame]
      exact hnodes
    · rcases hu with ⟨i, -, rfl⟩ | ⟨d, -, rfl⟩
      · exact (leaf_integer i).1
      · rfl

/-! ## Lookups in the tree that comes back -/

/-- A finite double that is not wide. -/
def Plain (d : D) : Prop := Double.isFinite d = true ∧ ¬ Wide d

/-- What the texts of plain doubles are read as. -/
structure Readback (real : D → JSONValue D) : Prop where
  leaf : ∀ d, Leaf (real d)
  number : ∀ d, Plain d → Number (Double.toChars d) (real d) ∧ ReadsAs (real d) d

omit [LawfulDouble D] in
theorem leaf_of_number {x : Bytes} {v : JSONValue D} (h : Number x v) : Leaf v := by
  cases h <;> simp [Leaf, nodes, depth, KeysWithin]

theorem exists_readback [PlainNotation D] : ∃ real : D → JSONValue D, Readback real := by
  have hread : ∀ d : D, ∃ v, Leaf v ∧ (Plain d → Number (Double.toChars d) v ∧ ReadsAs v d) := by
    intro d
    by_cases hd : Plain d
    · obtain ⟨v, hv, hreads⟩ := number_toChars hd.1 hd.2
      exact ⟨v, leaf_of_number hv, fun _ => ⟨hv, hreads⟩⟩
    · exact ⟨.null, ⟨rfl, rfl, fun _ => trivial⟩, fun h => absurd h hd⟩
  choose real hleaf hnumber using hread
  exact ⟨real, hleaf, hnumber⟩

namespace JSONValue

def isBool : JSONValue D → Bool
  | .bool _ => true
  | _ => false

/-- An integer, or nothing. -/
def isIntegral : JSONValue D → Bool
  | .null => true
  | .int64 _ => true
  | .uint64 _ => true
  | _ => false

/-- The tree that comes back. -/
def back (real : D → JSONValue D) (v : JSONValue D) : JSONValue D := v.reread integer real

end JSONValue

section

variable {real : D → JSONValue D} {v : JSONValue D} {key : Bytes}

omit [Double D] [LawfulDouble D] in
theorem back_uint64 (u : UInt64) : back real (.uint64 u) = .uint64 u := by
  show integer (u.toNat : Int) = _
  rw [integer, if_pos (by omega), Int.toNat_natCast, UInt64.ofNat_toNat]

omit [Double D] [LawfulDouble D] in
theorem back_array (vs : List (JSONValue D)) :
    back real (.array vs) = .array (vs.map (back real)) := by
  show JSONValue.array (rereadItems integer real vs) = _
  congr 1
  induction vs with
  | nil => rfl
  | cons v vs ih => exact congrArg (back real v :: ·) ih

omit [Double D] [LawfulDouble D] in
theorem field_back (hv : v.isObject = true) :
    (back real v).field key = (v.field key).map (back real) := by
  cases v with
  | object ms =>
    show lookup (rereadMembers integer real ms) key = (lookup ms key).map (back real)
    induction ms with
    | nil => rfl
    | cons m ms ih =>
      simp only [lookup, rereadMembers, List.find?_cons] at ih ⊢
      split
      · rfl
      · exact ih rfl
  | _ => cases hv

omit [Double D] [LawfulDouble D] in
/-- The same integer of both types. -/
theorem integral_back {w : JSONValue D} (h : w.isIntegral = true) :
    (back real w).asUInt64 = w.asUInt64 ∧ (back real w).asInt64 = w.asInt64 := by
  cases w with
  | null => exact ⟨rfl, rfl⟩
  | uint64 u =>
    rw [back_uint64]
    exact ⟨rfl, rfl⟩
  | int64 i =>
    have hlt := i.toInt_lt
    show (integer i.toInt).asUInt64 = _ ∧ (integer i.toInt).asInt64 = _
    by_cases hi : 0 ≤ i.toInt
    · have hn : (UInt64.ofNat i.toInt.toNat).toNat = i.toInt.toNat := by
        rw [UInt64.toNat_ofNat', Nat.mod_eq_of_lt (by omega)]
      rw [integer, if_pos hi]
      refine ⟨(if_pos hi).symm, ?_⟩
      simp only [asInt64, hn]
      rw [if_pos (by omega)]
      refine congrArg some (Int64.toInt.inj ?_)
      rw [Int64.toInt_ofNat_of_lt (by omega)]
      omega
    · rw [integer, if_neg hi, Int64.ofInt_toInt]
      exact ⟨rfl, rfl⟩
  | _ => cases h

end

end WebHtop.Common
