import WebHtop.Common.Json.Numbers
import WebHtop.Common.Json.Serialize

/-!
# What the program relies on in doubles

`LawfulDouble` states it: finite doubles are numbers, compared by value, and small integers
are among them; their shortest text is a JSON number of at most 64 bytes and is read back
exactly; an integer numeral denotes the same double whether `std::from_chars` reads it or an
integer conversion does. `Integral` has the doubles with integral values.
-/

namespace WebHtop.Common

open WebHtop.Lib WebHtop.Lib.Json WebHtop.Lib.Decimal

class LawfulDouble (D : Type) [Double D] where
  /-- The number a finite double is. -/
  val : D → ℚ
  lt_iff : ∀ {a b : D}, Double.isFinite a = true → Double.isFinite b = true →
    (Double.lt a b = true ↔ val a < val b)
  val_ofInt64 : ∀ {i : Int64}, i.toInt.natAbs ≤ 2 ^ 53 → val (Double.ofInt64 i : D) = i.toInt
  finite_ofInt64 : ∀ i, Double.isFinite (Double.ofInt64 i : D) = true
  finite_ofUInt64 : ∀ u, Double.isFinite (Double.ofUInt64 u : D) = true
  length_toChars : ∀ {d : D}, Double.isFinite d = true → (Double.toChars d).length ≤ 64
  numberText_toChars : ∀ {d : D}, Double.isFinite d = true → NumberText (Double.toChars d)
  fromChars_toChars : ∀ {d : D}, Double.isFinite d = true →
    Double.fromChars (Double.toChars d) = some d
  ofUInt64_fromChars : ∀ {i : Bytes} {d : D}, IntPart i → value i < 2 ^ 64 →
    Double.fromChars i = some d → val (Double.ofUInt64 (UInt64.ofNat (value i)) : D) = val d
  ofInt64_fromChars : ∀ {i : Bytes} {d : D}, IntPart i → value i ≤ 2 ^ 63 →
    Double.fromChars (0x2D :: i) = some d →
    val (Double.ofInt64 (Int64.ofInt (-(value i : Int))) : D) = val d

theorem toInt_neg_value {i : Bytes} (h : value i ≤ 2 ^ 63) :
    (Int64.ofInt (-(value i : Int))).toInt = -(value i : Int) :=
  Int64.toInt_ofInt_of_le (by omega) (by omega)

/-! ## The integral doubles -/

structure Integral where
  value : Int
deriving DecidableEq

namespace Integral

/-- Reads an integer, also with a fraction of zeros. -/
def fromChars (t : Bytes) : Option Integral :=
  let body := skipSign t
  let digits := body.takeWhile isDigit
  let fraction := body.dropWhile isDigit
  if digits = [] then none
  else if fraction = [] ∨ (fraction.head? = some (ch '.') ∧ fraction.tail ≠ [] ∧
      fraction.tail.all fun c => c = ch '0') then
    some ⟨if t.head? = some (ch '-') then -(Decimal.value digits : Int) else Decimal.value digits⟩
  else none

instance : Double Integral where
  isFinite d := d.value.natAbs < 10 ^ 60
  lt a b := decide (a.value < b.value)
  ofInt64 i := ⟨i.toInt⟩
  ofUInt64 u := ⟨u.toNat⟩
  toChars d := intToString d.value
  fromChars := fromChars

theorem fromChars_nonneg {i : Bytes} (hi : IntPart i) :
    fromChars i = some ⟨Decimal.value i⟩ := by
  obtain ⟨hd, hne⟩ := hi.digits
  have hskip : skipSign i = i := by simpa using skipSign_sign (.inl rfl) hi []
  have hdrop : i.dropWhile isDigit = [] := by
    simpa using dropWhile_digits (r := []) hd fun _ h => nomatch h
  simp only [fromChars, hskip, takeWhile_digits hd, hdrop]
  rw [if_neg hne, if_pos (.inl trivial), if_neg (intPart_head_ne hi)]

theorem fromChars_neg {i : Bytes} (hi : IntPart i) :
    fromChars (0x2D :: i) = some ⟨-(Decimal.value i : Int)⟩ := by
  obtain ⟨hd, hne⟩ := hi.digits
  have hskip : skipSign (0x2D :: i) = i := rfl
  have hhead : (0x2D :: i).head? = some (ch '-') := rfl
  have hdrop : i.dropWhile isDigit = [] := by
    simpa using dropWhile_digits (r := []) hd fun _ h => nomatch h
  simp only [fromChars, hskip, takeWhile_digits hd, hdrop]
  rw [if_neg hne, if_pos (.inl trivial), if_pos hhead]

theorem length_intToString {i : Int} (h : i.natAbs < 10 ^ 60) : (intToString i).length ≤ 64 := by
  have := length_numeral_le (k := 60) (by decide) h
  unfold intToString
  split
  · rw [List.length_cons]
    omega
  · omega

theorem numberText_intToString (i : Int) : NumberText (intToString i) := by
  unfold intToString
  split
  · exact ⟨[0x2D], numeral i.natAbs, [], [], by simp [ch], .inr rfl, intPart_numeral _, .inl rfl,
      .inl rfl⟩
  · exact ⟨[], numeral i.natAbs, [], [], by simp, .inl rfl, intPart_numeral _, .inl rfl, .inl rfl⟩

theorem fromChars_intToString (d : Integral) : fromChars (intToString d.value) = some d := by
  obtain ⟨i⟩ := d
  unfold intToString
  by_cases hi : i < 0
  · rw [if_pos hi]
    have := fromChars_neg (intPart_numeral i.natAbs)
    rw [value_numeral, show -(i.natAbs : Int) = i by omega] at this
    exact this
  · rw [if_neg hi]
    have := fromChars_nonneg (intPart_numeral i.natAbs)
    rw [value_numeral, show (i.natAbs : Int) = i by omega] at this
    exact this

instance : LawfulDouble Integral where
  val d := d.value
  lt_iff _ _ := by
    simp only [Double.lt, decide_eq_true_eq]
    exact Int.cast_lt.symm
  val_ofInt64 _ := rfl
  finite_ofInt64 i := by
    have h1 := i.le_toInt
    have h2 := i.toInt_lt
    simp only [Double.isFinite, Double.ofInt64, decide_eq_true_eq]
    omega
  finite_ofUInt64 u := by
    have h := u.toNat_lt
    simp only [Double.isFinite, Double.ofUInt64, decide_eq_true_eq]
    omega
  length_toChars h := length_intToString (by simpa [Double.isFinite] using h)
  numberText_toChars _ := numberText_intToString _
  fromChars_toChars _ := fromChars_intToString _
  ofUInt64_fromChars hi hv hd := by
    obtain rfl := Option.some.inj ((fromChars_nonneg hi).symm.trans hd)
    simp only [Double.ofUInt64, UInt64.toNat_ofNat', Nat.mod_eq_of_lt hv]
  ofInt64_fromChars hi hv hd := by
    obtain rfl := Option.some.inj ((fromChars_neg hi).symm.trans hd)
    simp only [Double.ofInt64, toInt_neg_value hv]

end Integral
end WebHtop.Common
