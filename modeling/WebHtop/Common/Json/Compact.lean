import WebHtop.Common.Json.Clean
import WebHtop.Common.Json.Reals
import WebHtop.Common.Json.Repair

/-!
# Compact texts

ToString without an indent. The length of the text is a sum over the tree, no byte of it is a
control character, and whoever reads it finds the values and the doubles of the tree.
-/

namespace WebHtop.Common

open WebHtop.Lib WebHtop.Lib.Json WebHtop.Lib.Decimal

variable {D : Type}

/-! ## Lengths -/

def literalWidth (s : Bytes) : Nat := (appendEscapedString s).length

def intWidth (i : Int) : Nat := (intToString i).length

def boolWidth (b : Bool) : Nat := if b then 4 else 5

def doubleWidth [Double D] (d : D) : Nat := (Double.toChars d).length

/-- Brackets with commas between the parts. -/
def listWidth (widths : List Nat) : Nat :=
  if widths = [] then 2 else 1 + (widths.map (· + 1)).sum

namespace JSONValue

variable [Double D]

mutual

/-- The length of the compact text. -/
def width (v : JSONValue D) : Nat :=
  match v with
  | .null => 4
  | .bool b => boolWidth b
  | .int64 i => intWidth i.toInt
  | .uint64 u => intWidth u.toNat
  | .double d => doubleWidth d
  | .string s => literalWidth s
  | .array items => listWidth (widthItems items)
  | .object members => listWidth (widthMembers members)
termination_by structural v

def widthItems (vs : List (JSONValue D)) : List Nat :=
  match vs with
  | [] => []
  | v :: vs => width v :: widthItems vs
termination_by structural vs

def widthMembers (ms : List (Bytes × JSONValue D)) : List Nat :=
  match ms with
  | [] => []
  | (key, v) :: ms => (literalWidth key + 1 + width v) :: widthMembers ms
termination_by structural ms

end

end JSONValue

open JSONValue

/-- No control characters, so no line ends. -/
def NoControl (x : Bytes) : Prop := ∀ c ∈ x, 0x20 ≤ c.toNat

theorem NoControl.append {x y : Bytes} (hx : NoControl x) (hy : NoControl y) :
    NoControl (x ++ y) := by
  intro c hc
  rcases List.mem_append.mp hc with hc | hc
  · exact hx c hc
  · exact hy c hc

theorem noControl_ascii {x : Bytes} (h : (x.all fun c => decide (0x20 ≤ c.toNat)) = true) :
    NoControl x := fun c hc => of_decide_eq_true (List.all_eq_true.mp h c hc)

theorem noControl_digits {x : Bytes} (h : Digits x) : NoControl x := by
  intro c hc
  have hd := h c hc
  simp only [isDigit, Bool.and_eq_true, decide_eq_true_eq] at hd
  omega

theorem noControl_number {x : Bytes} (h : NumberText x) : NoControl x := by
  obtain ⟨sign, i, f, e, rfl, hsign, hi, hf, he⟩ := h
  refine ((NoControl.append ?_ (noControl_digits hi.digits.1)).append ?_).append ?_
  · rcases hsign with rfl | rfl
    · exact noControl_ascii rfl
    · exact noControl_ascii rfl
  · rcases hf with rfl | ⟨ds, rfl, -, hds⟩
    · exact noControl_ascii rfl
    · exact (noControl_ascii (x := [0x2E]) rfl).append (noControl_digits hds)
  · rcases he with rfl | ⟨c, s, ds, rfl, hc, hs, -, hds⟩
    · exact noControl_ascii rfl
    · have hfirst : NoControl [c] := by
        rcases hc with rfl | rfl
        · exact noControl_ascii rfl
        · exact noControl_ascii rfl
      have hsecond : NoControl s := by
        rcases hs with rfl | rfl | rfl
        · exact noControl_ascii rfl
        · exact noControl_ascii rfl
        · exact noControl_ascii rfl
      exact hfirst.append (hsecond.append (noControl_digits hds))

/-! ## The text of a tree -/

section

variable [Double D] [LawfulDouble D] {indent : Int32}

def ValueCompact (indent : Int32) (v : JSONValue D) : Prop :=
  ∀ level x, v.serializeTo indent level = some x → x.length = v.width ∧ NoControl x

def ItemsCompact (indent : Int32) (vs : List (JSONValue D)) : Prop :=
  ∀ level x, serializeItems indent level vs = some x → vs ≠ [] →
    x.length + 1 = ((widthItems vs).map (· + 1)).sum ∧ NoControl x

def MembersCompact (indent : Int32) (ms : List (Bytes × JSONValue D)) : Prop :=
  ∀ level x, serializeMembers indent level ms = some x → ms ≠ [] →
    x.length + 1 = ((widthMembers ms).map (· + 1)).sum ∧ NoControl x

theorem appendIndent_compact (h : indent.toInt < 0) (level : Nat) :
    appendIndent indent level = [] := if_neg (not_le.mpr h)

omit [LawfulDouble D] in
theorem items_compact (hindent : indent.toInt < 0) {v : JSONValue D} {vs : List (JSONValue D)}
    (hv : ValueCompact indent v) (hvs : ItemsCompact indent vs) :
    ItemsCompact indent (v :: vs) := by
  intro level x hx _
  simp only [serializeItems, Option.bind_eq_bind, Option.bind_eq_some_iff] at hx
  obtain ⟨text, htext, rest, hrest, hx⟩ := hx
  obtain rfl := Option.some.inj hx
  obtain ⟨hlength, hclean⟩ := hv (level + 1) text htext
  rw [appendIndent_compact hindent, List.nil_append]
  cases vs with
  | nil =>
    obtain rfl := Option.some.inj hrest
    simpa [widthItems, hlength] using hclean
  | cons w ws =>
    obtain ⟨hlength', hclean'⟩ := hvs level rest hrest (by simp)
    refine ⟨?_, (hclean.append (noControl_ascii rfl)).append hclean'⟩
    rw [widthItems, List.map_cons, List.sum_cons, ← hlength', ← hlength]
    simp only [List.isEmpty_cons, Bool.false_eq_true, if_false, List.length_append]
    have hcomma : (lit ",").length = 1 := rfl
    omega

omit [LawfulDouble D] in
theorem members_compact (hindent : indent.toInt < 0) {key : Bytes} {v : JSONValue D}
    {ms : List (Bytes × JSONValue D)} (hv : ValueCompact indent v)
    (hms : MembersCompact indent ms) : MembersCompact indent ((key, v) :: ms) := by
  intro level x hx _
  simp only [serializeMembers, Option.bind_eq_bind, Option.bind_eq_some_iff] at hx
  obtain ⟨text, htext, rest, hrest, hx⟩ := hx
  obtain rfl := Option.some.inj hx
  obtain ⟨hlength, hclean⟩ := hv (level + 1) text htext
  have hkey : NoControl (appendEscapedString key) := (printable_literal key).2
  have hcolon : (lit ":").length = 1 := rfl
  have hmember : NoControl (appendEscapedString key ++ lit ":" ++ text) :=
    (hkey.append (noControl_ascii rfl)).append hclean
  rw [appendIndent_compact hindent, List.nil_append, if_neg (not_le.mpr hindent)]
  cases ms with
  | nil =>
    obtain rfl := Option.some.inj hrest
    refine ⟨?_, by simpa using hmember⟩
    simp only [widthMembers, List.map_cons, List.map_nil, List.sum_cons, List.sum_nil,
      List.isEmpty_nil, if_true, List.append_nil, List.length_append, hcolon, hlength]
    rw [literalWidth]
    omega
  | cons m ms =>
    obtain ⟨hlength', hclean'⟩ := hms level rest hrest (by simp)
    refine ⟨?_, (hmember.append (noControl_ascii rfl)).append hclean'⟩
    rw [widthMembers, List.map_cons, List.sum_cons, ← hlength', ← hlength, literalWidth]
    simp only [List.isEmpty_cons, Bool.false_eq_true, if_false, List.length_append]
    have hcomma : (lit ",").length = 1 := rfl
    omega

/-- The compact text of a tree has the width of the tree and no control characters. -/
theorem serializeTo_compact (hindent : indent.toInt < 0) (v : JSONValue D) :
    ValueCompact indent v := by
  refine @JSONValue.rec D (ValueCompact indent) (ItemsCompact indent) (MembersCompact indent)
    (fun m => ValueCompact indent m.2) ?null ?bool ?int64 ?uint64 ?double ?string ?array ?object
    ?noItems ?items ?noMembers ?members ?member v
  case null =>
    intro level x hx
    obtain rfl := Option.some.inj hx
    exact ⟨rfl, noControl_ascii rfl⟩
  case bool =>
    intro b level x hx
    obtain rfl := Option.some.inj hx
    cases b with
    | true => exact ⟨rfl, noControl_ascii rfl⟩
    | false => exact ⟨rfl, noControl_ascii rfl⟩
  case int64 =>
    intro i level x hx
    obtain rfl := Option.some.inj hx
    exact ⟨rfl, noControl_number (Integral.numberText_intToString _)⟩
  case uint64 =>
    intro u level x hx
    obtain rfl := Option.some.inj hx
    exact ⟨rfl, noControl_number (Integral.numberText_intToString _)⟩
  case double =>
    intro d level x hx
    simp only [serializeTo, doubleText] at hx
    split_ifs at hx with hf
    obtain rfl := Option.some.inj hx
    exact ⟨rfl, noControl_number (LawfulDouble.numberText_toChars (Bool.of_not_eq_false hf))⟩
  case string =>
    intro s level x hx
    obtain rfl := Option.some.inj hx
    exact ⟨rfl, (printable_literal s).2⟩
  case array =>
    intro vs ih level x hx
    simp only [serializeTo, appendIndent_compact hindent, List.append_nil] at hx
    cases vs with
    | nil =>
      obtain rfl := Option.some.inj hx
      exact ⟨rfl, noControl_ascii rfl⟩
    | cons w ws =>
      simp only [List.isEmpty_cons, Bool.false_eq_true, if_false, Option.bind_eq_bind,
        Option.bind_eq_some_iff] at hx
      obtain ⟨text, htext, hx⟩ := hx
      obtain rfl := Option.some.inj hx
      obtain ⟨hlength, hclean⟩ := ih level text htext (by simp)
      refine ⟨?_, ((noControl_ascii rfl).append hclean).append (noControl_ascii rfl)⟩
      rw [width, listWidth, if_neg (by simp [widthItems]), ← hlength]
      have hopen : (lit "[").length = 1 := rfl
      have hclose : (lit "]").length = 1 := rfl
      simp only [List.length_append, hopen, hclose]
      omega
  case object =>
    intro ms ih level x hx
    simp only [serializeTo, appendIndent_compact hindent, List.append_nil] at hx
    cases ms with
    | nil =>
      obtain rfl := Option.some.inj hx
      exact ⟨rfl, noControl_ascii rfl⟩
    | cons m ms =>
      simp only [List.isEmpty_cons, Bool.false_eq_true, if_false, Option.bind_eq_bind,
        Option.bind_eq_some_iff] at hx
      obtain ⟨text, htext, hx⟩ := hx
      obtain rfl := Option.some.inj hx
      obtain ⟨hlength, hclean⟩ := ih level text htext (by simp)
      refine ⟨?_, ((noControl_ascii rfl).append hclean).append (noControl_ascii rfl)⟩
      rw [width, listWidth, if_neg (by simp [widthMembers]), ← hlength]
      have hopen : (lit "\x7b").length = 1 := rfl
      have hclose : (lit "\x7d").length = 1 := rfl
      simp only [List.length_append, hopen, hclose]
      omega
  case noItems => exact fun _ _ _ hne => absurd rfl hne
  case items => exact fun v vs hv hvs => items_compact hindent hv hvs
  case noMembers => exact fun _ _ _ hne => absurd rfl hne
  case members => exact fun m ms hm hms => members_compact hindent hm hms
  case member => exact fun _ _ h => h

theorem toString_compact {v : JSONValue D} {x : Bytes} (hx : v.toString = some x) :
    x.length = v.width ∧ NoControl x := serializeTo_compact (by decide) v 0 x hx

end

/-! ## Integers -/

theorem length_intToString_le {i : Int} (h1 : -2 ^ 63 ≤ i) (h2 : i < 2 ^ 64) :
    (intToString i).length ≤ 20 := by
  unfold intToString
  split
  · have := length_numeral_le (n := i.natAbs) (k := 19) (by decide) (by omega)
    rw [List.length_cons]
    omega
  · exact length_numeral_le (by decide) (by omega)

theorem intWidth_uint64_le (u : UInt64) : intWidth u.toNat ≤ 20 := by
  have := u.toNat_lt
  exact length_intToString_le (by omega) (by omega)

theorem intWidth_int64_le (i : Int64) : intWidth i.toInt ≤ 20 := by
  have := i.toInt_lt
  have := i.le_toInt
  exact length_intToString_le (by omega) (by omega)

end WebHtop.Common
