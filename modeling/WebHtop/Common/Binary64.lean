import WebHtop.Common.Arithmetic
import WebHtop.Common.Doubles
import WebHtop.Lib.Binary64Text

/-!
# Binary64 is lawful

What the other modules assume of `double` holds of binary64 as it is modelled here.
-/

namespace WebHtop.Common

open WebHtop.Lib WebHtop.Lib.Json WebHtop.Lib.Decimal WebHtop.Lib.Binary64

instance : LawfulDouble Binary64 where
  val := Binary64.val
  lt_iff := lt_finite
  val_ofInt64 := val_round_int
  finite_ofInt64 i := by
    have := i.le_toInt
    have := i.toInt_lt
    exact round_finite (nearest_overflow_int (by omega))
  finite_ofUInt64 u := by
    have := u.toNat_lt
    exact round_finite (nearest_overflow_int (by omega))
  length_toChars {d} h := by
    obtain ⟨negative, m, rfl⟩ := exists_finite h
    obtain ⟨t, ht, hbody⟩ := body_toChars negative m
    have hsign : (if negative then [0x2D] else [] : Bytes).length ≤ 1 := by cases negative <;> decide
    have hlength := hbody.length_le
    show (toChars (finite negative m)).length ≤ 64
    rw [ht, List.length_append]
    omega
  numberText_toChars {d} h := by
    obtain ⟨negative, m, rfl⟩ := exists_finite h
    obtain ⟨t, ht, ⟨r, -, -, -, ⟨i, f, e, rfl, hi, hf, he⟩, -⟩, -, -⟩ := body_toChars negative m
    refine ⟨if negative then [0x2D] else [], i, f, e, ?_, ?_, hi, hf, he⟩
    · exact ht.trans (by simp)
    · cases negative <;> simp
  fromChars_toChars := fromChars_toChars
  ofUInt64_fromChars {i d} hi hlt hread := by
    have hvalue := val_fromChars_intPart hi false hlt.le hread
    show (ofInt ((UInt64.ofNat (value i)).toNat : ℤ)).val = _
    rwa [UInt64.toNat_ofNat', Nat.mod_eq_of_lt hlt]
  ofInt64_fromChars {i d} hi hle hread := by
    have hvalue := val_fromChars_intPart hi true (hle.trans (by norm_num)) hread
    show (ofInt (Int64.ofInt (-(value i : Int))).toInt).val = _
    rwa [toInt_neg_value hle]

end WebHtop.Common
