import WebHtop.Common.Binary64
import WebHtop.Common.Json.RoundTrip
import WebHtop.Common.Json.Unambiguity

/-!
# Doubles through their text

A double with an integral value is written without point or exponent as long as that is
not longer, and the parser then reads an integer of 64 bits. The two agree between
-2^63 and 2^64 only.
-/

namespace WebHtop.Common

open WebHtop.Lib WebHtop.Lib.Json WebHtop.Lib.Decimal JSONValue

/-- What `std::to_chars` writes for integral values: without an exponent it is the integer
itself, digit by digit. -/
class PlainNotation (D : Type) [Double D] [LawfulDouble D] : Prop where
  integral : ∀ {d : D}, Double.isFinite d = true → 2 ^ 53 ≤ |LawfulDouble.val d| →
    ∃ i : Int, LawfulDouble.val d = i
  toChars_integral : ∀ {d : D} {i : Int}, Double.isFinite d = true → LawfulDouble.val d = i →
    i ≠ 0 → ch 'e' ∉ Double.toChars d → Double.toChars d = intToString i
  val_nonneg : ∀ {d : D}, Double.isFinite d = true → IntPart (Double.toChars d) →
    LawfulDouble.val d = value (Double.toChars d)
  val_neg : ∀ {d : D} {i : Bytes}, Double.isFinite d = true → IntPart i →
    Double.toChars d = 0x2D :: i → LawfulDouble.val d = -(value i : Int)

instance : PlainNotation Integral where
  integral _ _ := ⟨_, rfl⟩
  toChars_integral _ hi _ _ := congrArg intToString (Int.cast_inj.mp hi)
  val_nonneg {d} _ hp := by
    have hread : some d = some ⟨value (intToString d.value)⟩ :=
      (Integral.fromChars_intToString d).symm.trans (Integral.fromChars_nonneg hp)
    exact congrArg (fun d : Integral => (d.value : ℚ)) (Option.some.inj hread)
  val_neg {d i} _ hp h := by
    have h : intToString d.value = 0x2D :: i := h
    have hread : some d = some ⟨-(value i : Int)⟩ :=
      (Integral.fromChars_intToString d).symm.trans (h ▸ Integral.fromChars_neg hp)
    exact congrArg (fun d : Integral => (d.value : ℚ)) (Option.some.inj hread)

instance : PlainNotation Binary64 where
  integral := Binary64.exists_int
  toChars_integral := Binary64.toChars_int
  val_nonneg := Binary64.val_toChars
  val_neg := Binary64.val_toChars_neg

/-! ## Integer numerals -/

theorem mem_intToString {i : Int} {c : UInt8} (h : c ∈ intToString i) :
    c = 0x2D ∨ isDigit c = true := by
  unfold intToString at h
  split at h
  · rcases List.mem_cons.mp h with rfl | h
    · exact .inl rfl
    · exact .inr (isDigit_numeral h)
  · exact .inr (isDigit_numeral h)

theorem not_mem_e {i : Bytes} (h : ∀ c ∈ i, c = 0x2D ∨ isDigit c = true) : ch 'e' ∉ i := by
  intro hm
  rcases h _ hm with h | h
  · exact absurd h (by decide)
  · exact absurd h (by decide)

/-- A fraction or an exponent shows. -/
theorem mem_real {f e : Bytes} (hf : FracPart f) (he : ExpPart e) (hne : ¬ (f = [] ∧ e = [])) :
    ∃ c ∈ f ++ e, c ≠ 0x2D ∧ isDigit c = false := by
  rcases hf with rfl | ⟨ds, rfl, -⟩
  · rcases he with rfl | ⟨c, sign, ds, rfl, hc, -⟩
    · exact absurd ⟨rfl, rfl⟩ hne
    · refine ⟨c, by simp, ?_⟩
      rcases hc with rfl | rfl <;> decide
  · exact ⟨0x2E, by simp, by decide, by decide⟩

variable {D : Type} [Double D]

theorem numeric_number : Numeric (Number (D := D)) := by
  intro x v h
  obtain ⟨sign, i, f, e, rfl, hsign, hi, hf, he, -⟩ := number_convert h
  exact ⟨sign, i, f, e, rfl, hsign, hi, hf, he⟩

/-- An integer that the parser reads fits a 64-bit type. -/
theorem range_of_number {i : Int} {v : JSONValue D} (h : Number (intToString i) v) :
    -2 ^ 63 ≤ i ∧ i < 2 ^ 64 := by
  generalize hx : intToString i = x at h
  cases h with
  | nonneg hi hlt =>
      unfold intToString at hx
      split at hx
      · exact absurd (congrArg List.head? hx.symm) (intPart_head_ne hi)
      · rw [← hx, value_numeral] at hlt
        omega
  | @neg t hi hle =>
      unfold intToString at hx
      split at hx
      · obtain ⟨-, rfl⟩ := List.cons.inj hx
        rw [value_numeral] at hle
        omega
      · have hd := isDigit_numeral (hx ▸ List.mem_cons_self : (0x2D : UInt8) ∈ numeral i.natAbs)
        exact absurd hd (by decide)
  | @real sign t f e d hsign hi hf he hne _ _ =>
      obtain ⟨c, hc, hminus, hdigit⟩ := mem_real hf he hne
      have hmem : c ∈ intToString i := by
        rw [hx, List.append_assoc]
        exact List.mem_append_right _ hc
      rcases mem_intToString hmem with h | h
      · exact absurd h hminus
      · exact absurd h (by simp [hdigit])

/-! ## Reading a double back -/

section

variable [LawfulDouble D]

/-- An integral value outside the 64-bit types, written without an exponent. -/
def Wide (d : D) : Prop :=
  (LawfulDouble.val d < -2 ^ 63 ∨ 2 ^ 64 ≤ LawfulDouble.val d) ∧ ch 'e' ∉ Double.toChars d

instance (d : D) : Decidable (Wide d) := inferInstanceAs (Decidable ((_ ∨ _) ∧ _))

/-- Same finite number, with the two zeros the same. -/
def ReadsAs (v : JSONValue D) (d : D) : Prop :=
  ∃ d', v.asDouble = some d' ∧ Double.isFinite d' = true ∧ LawfulDouble.val d' = LawfulDouble.val d

variable [PlainNotation D] {d : D}

/-- The parser reads the text of every other double. -/
theorem number_toChars (hf : Double.isFinite d = true) (hw : ¬ Wide d) :
    ∃ v, Number (Double.toChars d) v ∧ ReadsAs v d := by
  obtain ⟨sign, i, f, e, htext, hsign, hi, hfrac, hexp⟩ := LawfulDouble.numberText_toChars hf
  have hread := LawfulDouble.fromChars_toChars hf
  by_cases hplain : f = [] ∧ e = []
  · obtain ⟨rfl, rfl⟩ := hplain
    rw [List.append_nil, List.append_nil] at htext
    rcases hsign with rfl | rfl
    · rw [List.nil_append] at htext
      have hval := PlainNotation.val_nonneg hf (htext ▸ hi)
      have hlt : value i < 2 ^ 64 := by
        by_contra hge
        refine hw ⟨.inr ?_, htext ▸ not_mem_e fun c hc => .inr (hi.digits.1 c hc)⟩
        rw [hval, htext]
        exact_mod_cast Nat.le_of_not_lt hge
      rw [htext] at hread ⊢
      exact ⟨_, .nonneg hi hlt, _, rfl, LawfulDouble.finite_ofUInt64 _,
        LawfulDouble.ofUInt64_fromChars hi hlt hread⟩
    · have hval := PlainNotation.val_neg hf hi htext
      have hle : value i ≤ 2 ^ 63 := by
        by_contra hgt
        refine hw ⟨.inl ?_, ?_⟩
        · rw [hval]
          have : (2 ^ 63 : ℚ) < value i := by exact_mod_cast Nat.lt_of_not_le hgt
          push_cast
          linarith
        · rw [htext]
          refine not_mem_e fun c hc => ?_
          rcases List.mem_cons.mp hc with rfl | hc
          · exact .inl rfl
          · exact .inr (hi.digits.1 c hc)
      rw [htext] at hread ⊢
      exact ⟨_, .neg hi hle, _, rfl, LawfulDouble.finite_ofInt64 _,
        LawfulDouble.ofInt64_fromChars hi hle hread⟩
  · rw [htext] at hread ⊢
    exact ⟨_, .real hsign hi hfrac hexp hplain hread hf, d, rfl, hf, rfl⟩

/-- It reads no text of a wide one. -/
theorem not_number_wide (hf : Double.isFinite d = true) (hw : Wide d) (v : JSONValue D) :
    ¬ Number (Double.toChars d) v := by
  obtain ⟨hrange, hplain⟩ := hw
  have hlarge : 2 ^ 53 ≤ |LawfulDouble.val d| := by
    rcases hrange with h | h
    · rw [abs_of_neg (by linarith)]
      linarith
    · rw [abs_of_nonneg (by linarith)]
      linarith
  obtain ⟨i, hi⟩ := PlainNotation.integral hf hlarge
  have hne : i ≠ 0 := by
    rintro rfl
    rw [hi] at hlarge
    norm_num at hlarge
  intro h
  rw [PlainNotation.toChars_integral hf hi hne hplain] at h
  obtain ⟨h1, h2⟩ := range_of_number h
  rw [hi] at hrange
  rcases hrange with h | h
  · have : i < -2 ^ 63 := by exact_mod_cast h
    omega
  · have : 2 ^ 64 ≤ i := by exact_mod_cast h
    omega

omit [LawfulDouble D] [PlainNotation D] in
/-- A text that is one number is read as that number. -/
theorem number_of_parse {x : Bytes} {v : JSONValue D} (hx : NumberText x) (h : parse x = some v) :
    Number x v := by
  obtain ⟨-, htext, -⟩ := parse_sound h
  have hnumber : ValueText (D := Unit) (fun y _ => y = x) (x ++ []) (.double ()) [] := .number rfl
  rw [List.append_nil] at hnumber
  have hnumeric : Numeric (D := Unit) fun y _ => y = x := fun _ _ hy => hy ▸ hx
  have hself : JsonText (D := Unit) (fun y _ => y = x) x (.double ()) :=
    ⟨x, [], .nil, hnumber, .nil⟩
  cases JsonText.twin hnumeric numeric_number hself htext with
  | number hy hv => exact hy ▸ hv

omit [PlainNotation D] in
theorem toString_double (hf : Double.isFinite d = true) :
    (JSONValue.double d).toString = some (Double.toChars d) := by
  have hlength := LawfulDouble.length_toChars hf
  show doubleText d = _
  rw [doubleText, if_neg (by simp [hf]), if_neg (by omega)]

theorem parse_wide (hf : Double.isFinite d = true) (hw : Wide d) {t : Bytes} {v : JSONValue D}
    (ht : (JSONValue.double d).toString = some t) : parse t ≠ some v := by
  intro hv
  obtain rfl := Option.some.inj ((toString_double hf).symm.trans ht)
  exact not_number_wide hf hw v (number_of_parse (LawfulDouble.numberText_toChars hf) hv)

/-- A finite double comes back from its text unless it is wide: then the text is refused. -/
theorem double_comes_back (hf : Double.isFinite d = true) :
    (∃ t v, (JSONValue.double d).toString = some t ∧ parse t = some v ∧ ReadsAs v d) ↔ ¬ Wide d := by
  constructor
  · rintro ⟨t, v, ht, hv, -⟩ hw
    exact parse_wide hf hw ht hv
  · intro hw
    have hlength := LawfulDouble.length_toChars hf
    obtain ⟨v, hnumber, hread⟩ := number_toChars hf hw
    refine ⟨_, v, toString_double hf, ?_, hread⟩
    have hvalue := ValueText.number (t := []) hnumber
    rw [List.append_nil] at hvalue
    obtain ⟨⟨hnodes, hdepth⟩, hkeys⟩ := hnumber.leaf
    exact parse_complete (by omega) ⟨_, [], .nil, hvalue, .nil⟩ (by omega) (by omega) hkeys

/-- The double next to -0.1. -/
def tenth : Binary64 := Binary64.round false (-1 / 10)

theorem double_comes_back_negative : (JSONValue.double tenth).toString = some (lit "-0.1") ∧
    ∃ v, parse (lit "-0.1") = some v ∧ ReadsAs v tenth := by
  have htext : (JSONValue.double tenth).toString = some (lit "-0.1") := by decide +kernel
  have hnarrow : ¬ Wide tenth := by
    intro hw
    rcases hw.1 with h | h
    · exact absurd h (by decide +kernel)
    · exact absurd h (by decide +kernel)
  obtain ⟨t, v, ht, hparse, hreads⟩ := (double_comes_back (D := Binary64) (by decide +kernel)).mpr hnarrow
  obtain rfl := Option.some.inj (htext.symm.trans ht)
  exact ⟨htext, v, hparse, hreads⟩

/-- The double 2^64 is written as an integer that does not fit. -/
theorem double_refused : ¬ ∀ d : Binary64, Double.isFinite d = true →
    ∃ t v, (JSONValue.double d).toString = some t ∧ parse t = some v ∧ ReadsAs v d := by
  intro h
  have hf : Double.isFinite (Binary64.ofInt (2 ^ 64)) = true := by decide +kernel
  have hwide : Wide (Binary64.ofInt (2 ^ 64)) :=
    ⟨.inr (by decide +kernel), by decide +kernel⟩
  obtain ⟨t, v, ht, hv, -⟩ := h _ hf
  exact parse_wide hf hwide ht hv

end
end WebHtop.Common
