import Mathlib.Data.List.TakeWhile
import WebHtop.Lib.JsonLexis
import WebHtop.Lib.Shortest

/-!
# Doubles as text

What `std::to_chars` writes for a finite double is a number of JSON, and `std::from_chars` reads the
double back from it, with its sign.
-/

namespace WebHtop.Lib

open Decimal Json

namespace Decimal

theorem value_append (s t : List UInt8) : value (s ++ t) = value s * 10 ^ t.length + value t := by
  induction t using List.reverseRecOn with
  | nil => simp [value]
  | append_singleton t c ih =>
      rw [← List.append_assoc, value_snoc, value_snoc, ih, List.length_append, List.length_singleton]
      ring

theorem value_zeros (n : ℕ) (t : List UInt8) : value (List.replicate n 0x30 ++ t) = value t := by
  have hzeros : value (List.replicate n 0x30) = 0 :=
    (value_eq_zero_iff fun c hc => List.eq_of_mem_replicate hc ▸ rfl).mpr
      fun c hc => List.eq_of_mem_replicate hc
  rw [value_append, hzeros, zero_mul, zero_add]

end Decimal

namespace Binary64

/-! ## Reading a text by its parts -/

section

variable {whole point fraction r digits : List UInt8} {c : UInt8}

theorem takeWhile_whole (hw : Digits whole) (hc : isDigit c = false) :
    (whole ++ c :: r).takeWhile isDigit = whole := by
  rw [List.takeWhile_append_of_pos hw, List.takeWhile_cons_of_neg (by simp [hc]), List.append_nil]

theorem dropWhile_whole (hw : Digits whole) (hc : isDigit c = false) :
    (whole ++ c :: r).dropWhile isDigit = c :: r := by
  rw [List.dropWhile_append_of_pos hw, List.dropWhile_cons_of_neg (by simp [hc])]

/-- The digits behind the point, if there are any. -/
def Behind (point fraction : List UInt8) : Prop :=
  point = [] ∧ fraction = [] ∨ point = 0x2E :: fraction ∧ Digits fraction

theorem decimalValue_plain (hw : Digits whole) (hpoint : Behind point fraction)
    (hne : whole ++ fraction ≠ []) :
    decimalValue (whole ++ point) =
      some ((value (whole ++ fraction) : ℚ) * 10 ^ (-(fraction.length : ℤ))) := by
  have htake : ∀ {t}, Digits t → t.takeWhile isDigit = t := List.takeWhile_eq_self_iff.mpr
  have hdrop : ∀ {t}, Digits t → t.dropWhile isDigit = [] := List.dropWhile_eq_nil_iff.mpr
  rcases hpoint with ⟨rfl, rfl⟩ | ⟨rfl, hf⟩
  · rw [List.append_nil] at hne ⊢
    simp only [decimalValue, htake hw, hdrop hw, List.append_nil, if_neg hne]
  · have hdot : isDigit 0x2E = false := rfl
    simp only [decimalValue, takeWhile_whole hw hdot, dropWhile_whole hw hdot, htake hf, hdrop hf,
      if_neg hne]

theorem decimalValue_exponent (negative : Bool) (hw : Digits whole)
    (hpoint : Behind point fraction) (hne : whole ++ fraction ≠ []) (hd : Digits digits)
    (hd0 : digits ≠ []) :
    decimalValue (whole ++ point ++ 0x65 :: (if negative then 0x2D else 0x2B) :: digits) =
      some ((value (whole ++ fraction) : ℚ) *
        10 ^ ((if negative then -(value digits : ℤ) else value digits) - fraction.length)) := by
  have hall : digits.all isDigit = true := List.all_eq_true.mpr hd
  have he : isDigit 0x65 = false := rfl
  have hdot : isDigit 0x2E = false := rfl
  rcases hpoint with ⟨rfl, rfl⟩ | ⟨rfl, hf⟩
  · rw [List.append_nil] at hne
    cases negative <;>
      simp [decimalValue, takeWhile_whole hw he, dropWhile_whole hw he, hne, hall, hd0]
  · rw [List.append_assoc, List.cons_append]
    cases negative <;>
      simp [decimalValue, takeWhile_whole hw hdot, dropWhile_whole hw hdot, takeWhile_whole hf he,
        dropWhile_whole hf he, hne, hall, hd0]

end

/-! ## The texts -/

/-- A number of JSON without a sign, and what it is. -/
structure Spells (t : List UInt8) (r : ℚ) : Prop where
  number : ∃ i f e, t = i ++ f ++ e ∧ IntPart i ∧ FracPart f ∧ ExpPart e
  value : decimalValue t = some r

theorem spells_intPart {i : List UInt8} (h : IntPart i) : Spells i (value i) := by
  obtain ⟨hd, hne⟩ := h.digits
  refine ⟨⟨i, [], [], by simp, h, .inl rfl, .inl rfl⟩, ?_⟩
  have hbehind : Behind [] [] := .inl ⟨rfl, rfl⟩
  simpa using decimalValue_plain hd hbehind (by simpa using hne)

/-- A numeral that is not zero starts with another digit. -/
theorem numeral_pos {c : ℕ} (hc : 0 < c) :
    ∃ d ds, numeral c = d :: ds ∧ isDigit d = true ∧ d ≠ 0x30 ∧ Digits ds := by
  refine (numeral_cases c).resolve_left fun h => ?_
  have hvalue := value_numeral c
  rw [h] at hvalue
  exact hc.ne hvalue

variable {q : ℚ} {c : ℕ} {k : ℤ}

theorem fixedText_int (h : q.isInt = true) (h0 : 0 ≤ q) (digits : List UInt8) (k : ℤ) :
    ∃ n : ℕ, q = n ∧ fixedText q digits k = numeral n := by
  refine ⟨q.num.toNat, ?_, by rw [fixedText, if_pos h]⟩
  have hnum : ((q.num.toNat : ℤ) : ℚ) = q.num := by
    rw [Int.toNat_of_nonneg (Rat.num_nonneg.mpr h0)]
  have hden : q.den = 1 := by simpa [Rat.isInt] using h
  rw [← Int.cast_natCast, hnum, (Rat.den_eq_one_iff q).mp hden]

/-- A number with a fraction is written with a point. -/
theorem spells_fixed (hc : 0 < c) (hk : k < 0) (h : q.isInt = false) :
    Spells (fixedText q (numeral c) k) (c * 10 ^ k) ∧ 0x2E ∈ fixedText q (numeral c) k := by
  obtain ⟨d, ds, hdigits, hd, hd0, hds⟩ := numeral_pos hc
  have hall : Digits (numeral c) := fun _ hm => isDigit_numeral hm
  have hvalue := value_numeral c
  generalize numeral c = digits at hdigits hall hvalue ⊢
  have hlength : 0 < digits.length := by
    rw [hdigits]
    exact Nat.succ_pos _
  rw [fixedText, if_neg (by simp [h])]
  dsimp only
  split_ifs with hpoint
  · obtain ⟨n, hn⟩ : ∃ n : ℕ, digits.length + k = (n + 1 : ℕ) :=
      ⟨(digits.length + k).toNat - 1, by omega⟩
    rw [hn, Int.toNat_natCast]
    have htake : Digits (digits.take (n + 1)) := fun c hm => hall c (List.mem_of_mem_take hm)
    have hdrop : Digits (digits.drop (n + 1)) := fun c hm => hall c (List.mem_of_mem_drop hm)
    have hfraction : (digits.drop (n + 1)).length = -k := by
      rw [List.length_drop]
      omega
    have hint : IntPart (digits.take (n + 1)) := by
      rw [hdigits, List.take_succ_cons]
      exact .inr ⟨d, ds.take n, rfl, hd, hd0, fun c hm => hds c (List.mem_of_mem_take hm)⟩
    have hne : digits.drop (n + 1) ≠ [] := by
      intro hnil
      rw [hnil] at hfraction
      simp at hfraction
      omega
    refine ⟨⟨⟨_, _, [], by simp, hint, .inr ⟨_, rfl, hne, hdrop⟩, .inl rfl⟩, ?_⟩, by simp⟩
    rw [decimalValue_plain htake (.inr ⟨rfl, hdrop⟩) (by simp [hdigits]), hfraction, neg_neg,
      List.take_append_drop, hvalue]
  · obtain ⟨zeros, hzeros⟩ : ∃ zeros : ℕ, -(digits.length + k) = zeros :=
      ⟨(-(digits.length + k)).toNat, by omega⟩
    rw [hzeros, Int.toNat_natCast]
    have hzero : IntPart [0x30] := .inl rfl
    have hfraction : Digits (List.replicate zeros 0x30 ++ digits) := by
      intro c hm
      rcases List.mem_append.mp hm with hm | hm
      · exact List.eq_of_mem_replicate hm ▸ rfl
      · exact hall c hm
    have hne : List.replicate zeros 0x30 ++ digits ≠ [] := by simp [hdigits]
    have hpadded : value ([0x30] ++ (List.replicate zeros 0x30 ++ digits)) = c :=
      (value_zeros 1 _).trans ((value_zeros zeros _).trans hvalue)
    have hexponent : (-((List.replicate zeros 0x30 ++ digits).length : ℤ)) = k := by
      rw [List.length_append, List.length_replicate]
      omega
    refine ⟨⟨⟨[0x30], _, [], by simp, hzero, .inr ⟨_, rfl, hne, hfraction⟩, .inl rfl⟩, ?_⟩, by simp⟩
    have hread := decimalValue_plain hzero.digits.1 (.inr ⟨rfl, hfraction⟩) (by simp)
    rwa [hpadded, hexponent] at hread

/-- Digits of an exponent, at least two. -/
theorem padded_digits (n : ℕ) :
    Digits ((if (numeral n).length = 1 then [0x30] else []) ++ numeral n) ∧
      value ((if (numeral n).length = 1 then [0x30] else []) ++ numeral n) = n := by
  have hall : Digits (numeral n) := fun _ hm => isDigit_numeral hm
  split_ifs
  · refine ⟨List.forall_mem_cons.mpr ⟨rfl, hall⟩, (value_zeros 1 _).trans (value_numeral n)⟩
  · exact ⟨hall, value_numeral n⟩

theorem spells_scientific (hc : 0 < c) (k : ℤ) :
    Spells (scientificText (numeral c) k) (c * 10 ^ k) ∧ 0x65 ∈ scientificText (numeral c) k := by
  obtain ⟨d, ds, hdigits, hd, hd0, hds⟩ := numeral_pos hc
  have hvalue := value_numeral c
  rw [hdigits] at hvalue ⊢
  have hlength : (d :: ds).length = 1 ↔ ds = [] := by simp
  unfold scientificText
  dsimp only
  generalize hx : k + ((d :: ds).length : ℤ) - 1 = x
  rw [List.length_cons] at hx
  obtain ⟨hexponent, hsize⟩ := padded_digits x.natAbs
  have hne : (if (numeral x.natAbs).length = 1 then [0x30] else []) ++ numeral x.natAbs ≠ [] := by
    simp [numeral_ne_nil]
  generalize (if (numeral x.natAbs).length = 1 then [0x30] else [] : List UInt8) = padding at hexponent hsize hne ⊢
  have hpoint : Behind (if (d :: ds).length = 1 then [] else 0x2E :: ds) ds := by
    split_ifs with h
    · exact .inl ⟨rfl, hlength.mp h⟩
    · exact .inr ⟨rfl, hds⟩
  have hfrac : FracPart (if (d :: ds).length = 1 then [] else 0x2E :: ds) := by
    split_ifs with h
    · exact .inl rfl
    · exact .inr ⟨ds, rfl, fun hnil => h (hlength.mpr hnil), hds⟩
  have hread := decimalValue_exponent (decide (x < 0)) (List.forall_mem_singleton.mpr hd) hpoint
    (by simp) hexponent hne
  have hlast : (if x < 0 then -(x.natAbs : ℤ) else x.natAbs) - ds.length = k := by
    split_ifs <;> omega
  rw [show value ([d] ++ ds) = c from hvalue, hsize] at hread
  simp only [decide_eq_true_eq, hlast] at hread
  have hsign : [if x < 0 then (0x2D : UInt8) else 0x2B] = [0x2B] ∨
      [if x < 0 then (0x2D : UInt8) else 0x2B] = [0x2D] := by
    split_ifs <;> simp
  refine ⟨⟨⟨[d], _, 0x65 :: ([if x < 0 then 0x2D else 0x2B] ++ (padding ++ numeral x.natAbs)), ?_,
    .inr ⟨d, [], rfl, hd, hd0, List.forall_mem_nil _⟩, hfrac,
    .inr ⟨_, _, _, rfl, .inl rfl, .inr hsign, hne, hexponent⟩⟩, ?_⟩, by simp⟩
  · simp
  · rw [← hread]
    simp

theorem length_scientific (hc : c < 10 ^ 17) (hk : k.natAbs ≤ 1200) :
    (scientificText (numeral c) k).length ≤ 25 := by
  have hdigits := length_numeral_le (by norm_num) hc
  have hsize : (numeral (k + (numeral c).length - 1).natAbs).length ≤ 4 :=
    length_numeral_le (by norm_num) (by omega)
  unfold scientificText
  dsimp only
  simp only [List.length_append, List.length_take, List.length_cons, List.length_nil]
  have hpoint : (if (numeral c).length = 1 then [] else 0x2E :: (numeral c).drop 1).length ≤ 17 := by
    split_ifs
    · exact Nat.zero_le _
    · rw [List.length_cons, List.length_drop]
      omega
  have hpadding : (if (numeral (k + (numeral c).length - 1).natAbs).length = 1 then [0x30]
      else [] : List UInt8).length ≤ 1 := by
    split_ifs <;> simp
  omega

theorem log_ten_bounds (hq : 0 < q) (hn : nearest q = q) (h : q < 2 ^ 1024) :
    -1074 ≤ Int.log 10 q ∧ Int.log 10 q < 1024 := by
  constructor
  · refine (Int.zpow_le_iff_le_log (b := 10) (by norm_num) hq).mp ?_
    obtain ⟨m, hm0, -, hp, hm⟩ := nearest_form hq
    rw [hn] at hm
    have hmpos : 1 ≤ m := by
      by_contra hzero
      obtain rfl : m = 0 := by omega
      rw [hm, Int.cast_zero, zero_mul] at hq
      exact hq.false
    have hten : (10 : ℚ) ^ (-1074 : ℤ) ≤ 2 ^ (-1074 : ℤ) := by
      rw [zpow_neg, zpow_neg, zpow_ofNat, zpow_ofNat]
      exact inv_anti₀ (by positivity) (pow_le_pow_left₀ (by norm_num) (by norm_num) _)
    calc ((10 : ℕ) : ℚ) ^ (-1074 : ℤ) ≤ 2 ^ (-1074 : ℤ) := hten
      _ ≤ 2 ^ place q := two_zpow_le hp
      _ ≤ m * 2 ^ place q := le_mul_of_one_le_left (two_zpow_pos _).le (by exact_mod_cast hmpos)
      _ = q := hm.symm
  · refine (Int.lt_zpow_iff_log_lt (b := 10) (by norm_num) hq).mp (h.trans_le ?_)
    rw [zpow_ofNat]
    exact pow_le_pow_left₀ (by norm_num) (by norm_num) _

/-- What `toChars` writes behind the sign. -/
structure Body (q : ℚ) (t : List UInt8) : Prop where
  spells : ∃ r, 0 ≤ r ∧ nearest r = q ∧ (q = 0 → r = 0) ∧ Spells t r
  length_le : t.length ≤ 25
  /-- An integer is written out, unless there is an exponent. -/
  plain : (∃ n : ℕ, q = n ∧ t = numeral n) ∨ 0x65 ∈ t ∨ (0x2E ∈ t ∧ q.isInt = false)

theorem fraction_of_reads (hn : nearest (c * 10 ^ k) = q) (h : q.isInt = false) : k < 0 := by
  by_contra hpos
  obtain ⟨i, rfl⟩ := Int.eq_ofNat_of_zero_le (not_lt.mp hpos)
  obtain ⟨n, hnat⟩ := nearest_nat (c * 10 ^ i)
  push_cast at hnat
  rw [zpow_natCast, hnat] at hn
  rw [← hn] at h
  cases h

/-- The shorter one of two notations. -/
theorem body_of_reads (hq : 0 < q) (hn : nearest q = q) (h : Reads q c k) (hk : k.natAbs ≤ 1200) :
    Body q (if (scientificText (numeral c) k).length < (fixedText q (numeral c) k).length then
      scientificText (numeral c) k else fixedText q (numeral c) k) := by
  have hlength := length_scientific h.digits hk
  have hr : (0 : ℚ) ≤ c * 10 ^ k := mul_nonneg (Nat.cast_nonneg _) (ten_zpow_pos _).le
  obtain ⟨hscientific, he⟩ := spells_scientific h.pos k
  split_ifs with hshorter
  · exact ⟨⟨_, hr, h.nearest, fun h0 => absurd h0 hq.ne', hscientific⟩, hlength, .inr (.inl he)⟩
  · have hlength := (not_lt.mp hshorter).trans hlength
    cases hint : q.isInt with
    | true =>
      obtain ⟨n, hvalue, htext⟩ := fixedText_int hint hq.le (numeral c) k
      rw [htext] at hlength ⊢
      refine ⟨⟨n, Nat.cast_nonneg n, ?_, fun h0 => absurd h0 hq.ne', ?_⟩, hlength,
        .inl ⟨n, hvalue, rfl⟩⟩
      · rw [← hvalue, hn]
      · simpa using spells_intPart (intPart_numeral n)
    | false =>
      obtain ⟨hfixed, hdot⟩ := spells_fixed h.pos (fraction_of_reads h.nearest hint) hint
      exact ⟨⟨_, hr, h.nearest, fun h0 => absurd h0 hq.ne', hfixed⟩, hlength, .inr (.inr ⟨hdot, hint⟩)⟩

theorem body_toChars (negative : Bool) (m : Magnitude) :
    ∃ t, toChars (finite negative m) = (if negative then [0x2D] else []) ++ t ∧ Body m.val t := by
  obtain ⟨h0, hn, hlt⟩ := m.property
  by_cases hzero : m.val = 0
  · refine ⟨[0x30], ?_, ⟨0, le_rfl, ?_, fun _ => rfl, ?_⟩, by simp, .inl ⟨0, by simpa using hzero, rfl⟩⟩
    · simp only [toChars, hzero, if_true]
    · rw [hzero, nearest_zero]
    · exact spells_intPart (.inl rfl)
  · have hq : 0 < m.val := h0.lt_of_ne' hzero
    have hreads := shortest_reads hq hn
    obtain ⟨hleast, hmost⟩ := log_ten_bounds hq hn hlt
    have hk : (shortest m.val).2.natAbs ≤ 1200 := by
      have := hreads.least
      have := hreads.most
      omega
    refine ⟨_, ?_, body_of_reads hq hn hreads hk⟩
    simp only [toChars, if_neg hzero]

/-! ## Reading back -/

theorem Spells.head {t : List UInt8} {r : ℚ} (h : Spells t r) :
    ∃ d ds, t = d :: ds ∧ isDigit d = true := by
  obtain ⟨⟨i, f, e, rfl, hi, -, -⟩, -⟩ := h
  obtain ⟨d, ds, rfl, hd⟩ := hi.head
  exact ⟨d, ds ++ f ++ e, rfl, hd⟩

theorem lower_digit {d : UInt8} (h : isDigit d = true) : lower d ≠ 0x69 ∧ lower d ≠ 0x6E := by
  simp only [isDigit, Bool.and_eq_true, decide_eq_true_eq] at h
  have hsmall : ¬ (0x41 ≤ d ∧ d ≤ 0x5A) := by
    intro hletter
    have : 0x41 ≤ d.toNat := UInt8.le_iff_toNat_le.mp hletter.1
    omega
  rw [lower, if_neg hsmall]
  constructor
  · intro heq
    rw [heq] at h
    exact absurd h (by decide)
  · intro heq
    rw [heq] at h
    exact absurd h (by decide)

theorem round_signed {r : ℚ} (negative : Bool) (h0 : 0 ≤ r) (h : nearest r < 2 ^ 1024) :
    ∃ m : Magnitude, m.val = nearest r ∧
      round negative (if negative then -r else r) = finite negative m := by
  have habs : |if negative then -r else r| = r := by
    cases negative <;> simp [abs_of_nonneg h0]
  have hsign : (if (if negative then -r else r) = 0 then negative
      else decide ((if negative then -r else r) < 0)) = negative := by
    rcases h0.eq_or_lt with rfl | hpos
    · simp
    · cases negative <;> simp [hpos, hpos.ne', hpos.le]
  refine ⟨⟨nearest r, nearest_nonneg h0, nearest_nearest h0, h⟩, rfl, ?_⟩
  simp only [round, hsign, habs, h, ↓reduceDIte]

/-- A spelt number is read as the nearest double, with the sign in front of it. -/
theorem fromChars_signed {t : List UInt8} {r : ℚ} (hs : Spells t r) (negative : Bool) (h0 : 0 ≤ r)
    (h : nearest r < 2 ^ 1024) (hzero : nearest r = 0 → r = 0) :
    ∃ m : Magnitude, m.val = nearest r ∧
      fromChars ((if negative then [0x2D] else []) ++ t) = some (finite negative m) := by
  obtain ⟨m, hm, hround⟩ := round_signed negative h0 h
  obtain ⟨d, ds, ht, hd⟩ := hs.head
  obtain ⟨hi, hn⟩ := lower_digit hd
  have hminus : d ≠ 0x2D := by
    intro heq
    rw [heq] at hd
    cases hd
  have hvalue : decimalValue (d :: ds) = some r := ht ▸ hs.value
  have hkept : (finite negative m).isFinite = true ∧ ((finite negative m).val = 0 → r = 0) := by
    refine ⟨rfl, fun hval => hzero ?_⟩
    rw [← hm, ← abs_val_finite negative m, hval, abs_zero]
  refine ⟨m, hm, ?_⟩
  rw [ht]
  cases negative
  · have hround : round false r = finite false m := hround
    simpa [fromChars, hminus, hi, hn, hvalue, hround] using hkept
  · have hround : round true (-r) = finite true m := hround
    simpa [fromChars, hi, hn, hvalue, hround] using hkept

theorem fromChars_toChars {d : Binary64} (h : d.isFinite = true) : fromChars (toChars d) = some d := by
  obtain ⟨negative, m, rfl⟩ := exists_finite h
  obtain ⟨t, ht, ⟨r, h0, hnear, hzero, hspells⟩, -, -⟩ := body_toChars negative m
  obtain ⟨m', hm', hread⟩ := fromChars_signed hspells negative h0 (hnear ▸ m.property.2.2)
    (hnear ▸ hzero)
  rw [ht, hread, Subtype.ext (hm'.trans hnear)]

/-! ## Integers -/

theorem nearest_overflow_int {z : ℤ} (h : z.natAbs ≤ 2 ^ 64) : nearest |(z : ℚ)| < 2 ^ 1024 := by
  refine nearest_lt_overflow (e := 64) (abs_nonneg _) (by norm_num) ?_ (by norm_num)
  rw [← Int.cast_abs, Int.abs_eq_natAbs]
  exact_mod_cast h

/-- What rounding gives, with the sign. -/
theorem val_round {sign : Bool} (h : nearest |q| < 2 ^ 1024) :
    (round sign q).val = if q < 0 then -nearest |q| else nearest |q| := by
  rcases eq_or_ne q 0 with rfl | hne
  · cases sign <;> simp [round, val, nearest_zero]
  · by_cases hneg : q < 0 <;> simp [round, val, hne, hneg, h]

/-- Small integers are not rounded. -/
theorem val_round_int {z : ℤ} (h : z.natAbs ≤ 2 ^ 53) : (ofInt z).val = z := by
  have hexact : nearest |(z : ℚ)| = |(z : ℚ)| := by
    have hle : (z.natAbs : ℤ) ≤ 2 ^ 53 := by exact_mod_cast h
    have := nearest_exact (e := 0) (Int.natCast_nonneg z.natAbs) hle (by norm_num)
    rwa [zpow_zero, mul_one, ← Int.abs_eq_natAbs, Int.cast_abs] at this
  rw [ofInt, val_round (nearest_overflow_int (by omega)), hexact]
  split_ifs with hneg
  · rw [abs_of_neg hneg, neg_neg]
  · exact abs_of_nonneg (not_lt.mp hneg)

/-- No other natural number is rounded to zero. -/
theorem nearest_nat_eq_zero {n : ℕ} (h : nearest n = 0) : (n : ℚ) = 0 := by
  by_contra hne
  have hone : (2 : ℚ) ^ (0 : ℤ) ≤ n := by
    rw [zpow_zero]
    exact_mod_cast Nat.pos_of_ne_zero (Nat.cast_ne_zero.mp hne)
  have := two_zpow_le_nearest (by norm_num) hone
  rw [h, zpow_zero] at this
  norm_num at this

/-- A numeral of 64 bits is read as the double its number is converted to. -/
theorem val_fromChars_intPart {i : List UInt8} {d : Binary64} (hi : IntPart i) (negative : Bool)
    (h : value i ≤ 2 ^ 64)
    (hread : fromChars ((if negative then [0x2D] else []) ++ i) = some d) :
    (ofInt (if negative then -(value i : ℤ) else value i)).val = d.val := by
  have hlt : nearest (value i : ℚ) < 2 ^ 1024 := by
    simpa using nearest_overflow_int (z := value i) (by simpa using h)
  obtain ⟨m, hm, hd⟩ := fromChars_signed (spells_intPart hi) negative (Nat.cast_nonneg _) hlt
    nearest_nat_eq_zero
  obtain rfl := Option.some.inj (hd.symm.trans hread)
  have hround : ∀ z : ℤ, z.natAbs = value i → (ofInt z).val =
      if (z : ℚ) < 0 then -nearest (value i) else nearest (value i) := by
    intro z hz
    have habs : |(z : ℚ)| = value i := by
      rw [← Int.cast_abs, Int.abs_eq_natAbs, hz, Int.cast_natCast]
    rw [ofInt, val_round (nearest_overflow_int (hz ▸ h)), habs]
  cases negative with
  | false =>
    show (ofInt (value i : ℤ)).val = _
    rw [hround _ (by simp), if_neg (by simp)]
    exact hm.symm
  | true =>
    have hval : (finite true m).val = -nearest (value i) := by rw [← hm]; rfl
    show (ofInt (-(value i : ℤ))).val = _
    rw [hround _ (by simp), hval]
    split_ifs with hneg
    · rfl
    · have hzero : value i = 0 := by simpa using hneg
      rw [hzero, Nat.cast_zero, nearest_zero, neg_zero]

/-- From 2^53 on there are no fractions. -/
theorem integral_of_le (hn : nearest q = q) (h : 2 ^ 53 ≤ q) : ∃ z : ℤ, q = z := by
  have hq : 0 < q := lt_of_lt_of_le (by norm_num) h
  have hlog : 53 ≤ Int.log 2 q :=
    (Int.zpow_le_iff_le_log (b := 2) (by norm_num) hq).mp (by exact_mod_cast h)
  obtain ⟨k, -, -, -, hk⟩ := nearest_form hq
  obtain ⟨p, hp⟩ : ∃ p : ℕ, place q = p := ⟨(place q).toNat, by unfold place; omega⟩
  refine ⟨k * 2 ^ p, ?_⟩
  rw [hn, hp, zpow_natCast] at hk
  rw [hk]
  push_cast
  rfl

theorem Body.numeral {t : List UInt8} (h : Body q t) (hd : Digits t) : ∃ n : ℕ, q = n ∧ t = numeral n := by
  rcases h.plain with hplain | he | ⟨hdot, -⟩
  · exact hplain
  · exact absurd (hd _ he) (by decide)
  · exact absurd (hd _ hdot) (by decide)

/-! ## What is written -/

theorem exists_int {d : Binary64} (h : d.isFinite = true) (hle : 2 ^ 53 ≤ |d.val|) :
    ∃ z : ℤ, d.val = z := by
  obtain ⟨negative, m, rfl⟩ := exists_finite h
  have hval : |(finite negative m).val| = m.val := abs_val_finite negative m
  obtain ⟨z, hz⟩ := integral_of_le m.property.2.1 (hval ▸ hle)
  cases negative with
  | false => exact ⟨z, hz⟩
  | true => exact ⟨-z, by rw [Int.cast_neg, ← hz]; rfl⟩

/-- Without an exponent an integral double is written as its integer. -/
theorem toChars_int {d : Binary64} {i : ℤ} (h : d.isFinite = true) (hi : d.val = i) (h0 : i ≠ 0)
    (he : 0x65 ∉ toChars d) :
    toChars d = if i < 0 then 0x2D :: numeral i.natAbs else numeral i.natAbs := by
  obtain ⟨negative, m, rfl⟩ := exists_finite h
  obtain ⟨t, ht, hbody⟩ := body_toChars negative m
  have hmagnitude : m.val = |i| := by rw [← abs_val_finite negative m, hi, Int.cast_abs]
  rw [ht] at he ⊢
  rcases hbody.plain with ⟨n, hn, rfl⟩ | hmem | ⟨-, hfraction⟩
  · have hnat : i.natAbs = n := by
      rw [hn, Int.abs_eq_natAbs] at hmagnitude
      exact_mod_cast hmagnitude.symm
    have hm0 := m.property.1
    rw [← hnat]
    cases negative with
    | false =>
      have hnonneg : (0 : ℚ) ≤ i := hi ▸ hm0
      rw [if_neg (not_lt.mpr (by exact_mod_cast hnonneg))]
      rfl
    | true =>
      have hnonpos : (i : ℚ) ≤ 0 := hi ▸ neg_nonpos.mpr hm0
      rw [if_pos (lt_of_le_of_ne (by exact_mod_cast hnonpos) h0)]
      rfl
  · exact absurd (List.mem_append_right _ hmem) he
  · rw [hmagnitude] at hfraction
    cases hfraction

/-- A text of digits alone is the number. -/
theorem val_toChars {d : Binary64} (h : d.isFinite = true) (hp : IntPart (toChars d)) :
    d.val = value (toChars d) := by
  obtain ⟨negative, m, rfl⟩ := exists_finite h
  obtain ⟨t, ht, hbody⟩ := body_toChars negative m
  rw [ht] at hp ⊢
  cases negative with
  | false =>
    obtain ⟨n, hn, rfl⟩ := hbody.numeral hp.digits.1
    exact hn.trans (congrArg Nat.cast (value_numeral n).symm)
  | true => exact absurd (hp.digits.1 0x2D List.mem_cons_self) (by decide)

theorem val_toChars_neg {d : Binary64} {i : List UInt8} (h : d.isFinite = true) (hp : IntPart i)
    (ht : toChars d = 0x2D :: i) : d.val = -(value i : ℤ) := by
  obtain ⟨negative, m, rfl⟩ := exists_finite h
  obtain ⟨t, ht', hbody⟩ := body_toChars negative m
  have ht := ht'.symm.trans ht
  cases negative with
  | false =>
    obtain ⟨r, -, -, -, hspells⟩ := hbody.spells
    obtain ⟨c, cs, rfl, hc⟩ := hspells.head
    rw [(List.cons.inj ht).1] at hc
    cases hc
  | true =>
    obtain rfl : t = i := (List.cons.inj ht).2
    obtain ⟨n, hn, rfl⟩ := hbody.numeral hp.digits.1
    show -m.val = _
    rw [hn, value_numeral]
    push_cast
    rfl

end Binary64
end WebHtop.Lib
