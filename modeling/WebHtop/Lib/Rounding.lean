import Mathlib.Algebra.BigOperators.Group.List.Basic
import Mathlib.Data.Int.Log
import Mathlib.Data.List.Induction
import Mathlib.Data.List.Nodup
import Mathlib.Data.List.SplitBy
import Mathlib.Data.Nat.Digits.Lemmas
import Mathlib.Data.Rat.Floor
import Mathlib.Tactic.FieldSimp
import Mathlib.Tactic.Linarith
import Mathlib.Tactic.Positivity

/-!
# Rounding to 53 significant bits

The nearest number of the form `k * 2 ^ e` with at most 53 bits in `k` and `-1074 ≤ e`, the
even one of two that are equally near. This is the rounding of binary64, without its upper
bound, on the nonnegative rationals.
-/

namespace WebHtop.Lib

/-- The nearest integer, the even one of two. -/
def roundEven (q : ℚ) : ℤ :=
  if q - ⌊q⌋ < 1 / 2 then ⌊q⌋
  else if 1 / 2 < q - ⌊q⌋ then ⌊q⌋ + 1
  else if 2 ∣ ⌊q⌋ then ⌊q⌋ else ⌊q⌋ + 1

theorem roundEven_bounds (q : ℚ) : ⌊q⌋ ≤ roundEven q ∧ roundEven q ≤ ⌊q⌋ + 1 := by
  unfold roundEven
  split_ifs <;> constructor <;> omega

theorem roundEven_int (n : ℤ) : roundEven n = n := by
  simp [roundEven]

/-- Rounding a quotient of integers looks at the remainder. -/
theorem roundEven_div (n : ℤ) {d : ℕ} (hd : 0 < d) : roundEven (n / d) =
    if 2 * (n % d) < d then n / d
    else if d < 2 * (n % d) then n / d + 1
    else if 2 ∣ n / (d : ℤ) then n / d else n / d + 1 := by
  have hfloor : ⌊(n : ℚ) / d⌋ = n / (d : ℤ) := Rat.floor_intCast_div_natCast n d
  have hdq : (0 : ℚ) < d := by exact_mod_cast hd
  have hfrac : (n : ℚ) / d - ((n / (d : ℤ) : ℤ) : ℚ) = ((n % d : ℤ) : ℚ) / d := by
    rw [div_sub' hdq.ne', ← Int.cast_natCast d, ← Int.cast_mul, ← Int.cast_sub,
      Int.emod_def]
  have hlt : ((n % d : ℤ) : ℚ) / d < 1 / 2 ↔ 2 * (n % d) < d := by
    rw [div_lt_div_iff₀ hdq (by norm_num)]
    constructor <;> intro h
    · have : ((2 * (n % d) : ℤ) : ℚ) < ((d : ℤ) : ℚ) := by push_cast; linarith
      exact_mod_cast this
    · have : ((2 * (n % d) : ℤ) : ℚ) < ((d : ℤ) : ℚ) := by exact_mod_cast h
      push_cast at this
      linarith
  have hgt : 1 / 2 < ((n % d : ℤ) : ℚ) / d ↔ (d : ℤ) < 2 * (n % d) := by
    rw [div_lt_div_iff₀ (by norm_num) hdq]
    constructor <;> intro h
    · have : ((d : ℤ) : ℚ) < ((2 * (n % d) : ℤ) : ℚ) := by push_cast; linarith
      exact_mod_cast this
    · have : ((d : ℤ) : ℚ) < ((2 * (n % d) : ℤ) : ℚ) := by exact_mod_cast h
      push_cast at this
      linarith
  unfold roundEven
  rw [hfloor, hfrac]
  simp only [hlt, hgt]

theorem roundEven_mono {q r : ℚ} (h : q ≤ r) : roundEven q ≤ roundEven r := by
  have hf := Int.floor_le_floor h
  have hq := roundEven_bounds q
  have hr := roundEven_bounds r
  by_cases heq : ⌊q⌋ = ⌊r⌋
  · have hle : q - ⌊q⌋ ≤ r - ⌊q⌋ := by linarith
    unfold roundEven
    rw [← heq]
    split_ifs <;> first | omega | exact absurd (by linarith : (1 : ℚ) / 2 < 1 / 2) (lt_irrefl _)
  · omega

theorem roundEven_error (q : ℚ) : |(roundEven q : ℚ) - q| ≤ 1 / 2 := by
  have h0 := Int.floor_le q
  have h1 := Int.lt_floor_add_one q
  rw [abs_le]
  unfold roundEven
  split_ifs <;> push_cast <;> constructor <;> linarith

/-- The exponent of the last place of a number near `q`. -/
def place (q : ℚ) : ℤ := max (Int.log 2 q - 52) (-1074)

def nearest (q : ℚ) : ℚ := roundEven (q / 2 ^ place q) * 2 ^ place q

theorem two_zpow_pos (e : ℤ) : (0 : ℚ) < 2 ^ e := zpow_pos (by norm_num) e

theorem two_zpow_add (e f : ℤ) : (2 : ℚ) ^ (e + f) = 2 ^ e * 2 ^ f := zpow_add₀ (by norm_num) e f

theorem two_zpow_le {e f : ℤ} (h : e ≤ f) : (2 : ℚ) ^ e ≤ 2 ^ f :=
  zpow_le_zpow_right₀ (by norm_num) h

theorem log_eq {q : ℚ} {n : ℤ} (h0 : 2 ^ n ≤ q) (h1 : q < 2 ^ (n + 1)) : Int.log 2 q = n := by
  have hq : 0 < q := lt_of_lt_of_le (two_zpow_pos n) h0
  have hle := (Int.zpow_le_iff_le_log (b := 2) (by norm_num) hq).mp (by exact_mod_cast h0)
  have hlt := (Int.lt_zpow_iff_log_lt (b := 2) (by norm_num) hq).mp (by exact_mod_cast h1)
  omega

theorem log_bounds {q : ℚ} (hq : 0 < q) : 2 ^ Int.log 2 q ≤ q ∧ q < 2 ^ (Int.log 2 q + 1) :=
  ⟨by exact_mod_cast Int.zpow_log_le_self (by norm_num : 1 < 2) hq,
    by exact_mod_cast Int.lt_zpow_succ_log_self (by norm_num : 1 < 2) q⟩

/-- In front of the last place stand at most 53 bits. -/
theorem div_place_lt {q : ℚ} (hq : 0 < q) : q / 2 ^ place q < 2 ^ 53 := by
  rw [div_lt_iff₀ (two_zpow_pos _)]
  refine lt_of_lt_of_le (log_bounds hq).2 ?_
  have : (2 : ℚ) ^ (53 : ℕ) * 2 ^ place q = 2 ^ (53 + place q) := by
    rw [two_zpow_add]
    norm_cast
  rw [this]
  apply two_zpow_le
  unfold place
  omega

theorem roundEven_nonneg {q : ℚ} (hq : 0 ≤ q) : 0 ≤ roundEven q := by
  have h := roundEven_mono (q := ((0 : ℤ) : ℚ)) (by exact_mod_cast hq)
  rwa [roundEven_int] at h

theorem nearest_nonneg {q : ℚ} (hq : 0 ≤ q) : 0 ≤ nearest q := by
  have h := roundEven_nonneg (div_nonneg hq (two_zpow_pos (place q)).le)
  exact mul_nonneg (by exact_mod_cast h) (two_zpow_pos _).le

theorem nearest_zero : nearest 0 = 0 := by
  simp [nearest, roundEven]

/-- What rounding gives has at most 53 bits. -/
theorem nearest_form {q : ℚ} (hq : 0 < q) : ∃ k : ℤ, 0 ≤ k ∧ k ≤ 2 ^ 53 ∧ -1074 ≤ place q ∧
    nearest q = k * 2 ^ place q := by
  refine ⟨_, roundEven_nonneg (div_nonneg hq.le (two_zpow_pos _).le), ?_, le_max_right _ _, rfl⟩
  have hle : q / 2 ^ place q ≤ ((2 ^ 53 : ℤ) : ℚ) := by
    push_cast
    exact (div_place_lt hq).le
  simpa only [roundEven_int] using roundEven_mono hle

/-- With the leading bit known, the place is known. -/
theorem nearest_of_place {q : ℚ} {p : ℤ} (hp : -1074 ≤ p) (h0 : 2 ^ (p + 52) ≤ q)
    (h1 : q < 2 ^ (p + 53)) : nearest q = roundEven (q / 2 ^ p) * 2 ^ p := by
  have hlog : Int.log 2 q = p + 52 := log_eq h0 (by rwa [add_assoc])
  have hplace : place q = p := by
    unfold place
    omega
  rw [nearest, hplace]

/-- Numbers with at most 53 bits are not changed. -/
theorem nearest_exact {k e : ℤ} (hk : 0 ≤ k) (hk53 : k ≤ 2 ^ 53) (he : -1074 ≤ e) :
    nearest (k * 2 ^ e) = k * 2 ^ e := by
  rcases hk.eq_or_lt with rfl | hpos
  · simp [nearest_zero]
  have hq : (0 : ℚ) < k * 2 ^ e := mul_pos (by exact_mod_cast hpos) (two_zpow_pos e)
  -- On a place that is not above `e` the number is an integer.
  have hint : ∀ d : ℕ, place (k * 2 ^ e) = e - d → nearest (k * 2 ^ e) = k * 2 ^ e := by
    intro d hd
    have hquot : (k * 2 ^ e : ℚ) / 2 ^ (e - d) = ((k * 2 ^ d : ℤ) : ℚ) := by
      rw [div_eq_iff (two_zpow_pos _).ne']
      push_cast
      rw [mul_assoc, ← zpow_natCast, ← two_zpow_add]
      congr 2
      omega
    rw [nearest, hd, hquot, roundEven_int, ← hquot, div_mul_cancel₀ _ (two_zpow_pos _).ne']
  rcases hk53.eq_or_lt with rfl | hlt
  · have htop : (((2 ^ 53 : ℤ) : ℚ) * 2 ^ e) = 2 ^ (e + 53) := by
      rw [two_zpow_add, mul_comm]
      norm_cast
    have hlog : Int.log 2 (((2 ^ 53 : ℤ) : ℚ) * 2 ^ e) = e + 53 :=
      log_eq htop.ge (htop.trans_lt (zpow_lt_zpow_right₀ (by norm_num) (by omega)))
    have hplace : place (((2 ^ 53 : ℤ) : ℚ) * 2 ^ e) = e + 1 := by
      unfold place
      omega
    have hquot : ((2 ^ 53 : ℤ) : ℚ) * 2 ^ e / 2 ^ (e + 1) = ((2 ^ 52 : ℤ) : ℚ) := by
      rw [div_eq_iff (two_zpow_pos _).ne', two_zpow_add]
      push_cast
      ring
    rw [nearest, hplace, hquot, roundEven_int, ← hquot, div_mul_cancel₀ _ (two_zpow_pos _).ne']
  · have hlog : Int.log 2 (k * 2 ^ e : ℚ) < e + 53 := by
      have hlt' : (k * 2 ^ e : ℚ) < 2 ^ (e + 53) := by
        rw [two_zpow_add, mul_comm]
        refine mul_lt_mul_of_pos_left ?_ (two_zpow_pos e)
        exact_mod_cast hlt
      exact (Int.lt_zpow_iff_log_lt (b := 2) (by norm_num) hq).mp (by exact_mod_cast hlt')
    refine hint (e - place (k * 2 ^ e)).toNat ?_
    have : place (k * 2 ^ e) ≤ e := by
      unfold place
      omega
    omega

theorem nearest_two_zpow {e : ℤ} (he : -1074 ≤ e) : nearest (2 ^ e) = 2 ^ e := by
  simpa using nearest_exact (k := 1) (by norm_num) (by norm_num) he

theorem nearest_nearest {q : ℚ} (hq : 0 ≤ q) : nearest (nearest q) = nearest q := by
  rcases hq.eq_or_lt with rfl | hq
  · simp [nearest_zero]
  · obtain ⟨k, h0, h53, hp, hk⟩ := nearest_form hq
    rw [hk, nearest_exact h0 h53 hp]

theorem nearest_mono {q r : ℚ} (hq : 0 ≤ q) (h : q ≤ r) : nearest q ≤ nearest r := by
  rcases hq.eq_or_lt with rfl | hq
  · rw [nearest_zero]
    exact nearest_nonneg h
  have hr : 0 < r := lt_of_lt_of_le hq h
  have hlog : Int.log 2 q ≤ Int.log 2 r := Int.log_mono_right hq h
  have hplace : place q ≤ place r := by
    unfold place
    omega
  rcases hplace.eq_or_lt with heq | hlt
  · unfold nearest
    rw [heq]
    refine mul_le_mul_of_nonneg_right ?_ (two_zpow_pos _).le
    exact_mod_cast roundEven_mono (div_le_div_of_nonneg_right h (two_zpow_pos _).le)
  · -- A power of two lies between them.
    obtain ⟨k, _, h53, _, hk⟩ := nearest_form hq
    have hstep : place r = Int.log 2 r - 52 := by
      unfold place at hlt ⊢
      omega
    have hmid : nearest q ≤ 2 ^ Int.log 2 r := by
      rw [hk]
      calc (k : ℚ) * 2 ^ place q ≤ 2 ^ (53 : ℤ) * 2 ^ place q := by
            refine mul_le_mul_of_nonneg_right ?_ (two_zpow_pos _).le
            exact_mod_cast h53
        _ = 2 ^ (53 + place q) := (two_zpow_add _ _).symm
        _ ≤ 2 ^ Int.log 2 r := two_zpow_le (by omega)
    refine hmid.trans ?_
    have hle : ((2 ^ 52 : ℤ) : ℚ) ≤ r / 2 ^ place r := by
      rw [le_div_iff₀ (two_zpow_pos _), hstep]
      have : ((2 ^ 52 : ℤ) : ℚ) * 2 ^ (Int.log 2 r - 52) = 2 ^ Int.log 2 r := by
        have h52 : ((2 ^ 52 : ℤ) : ℚ) = 2 ^ (52 : ℤ) := by norm_cast
        rw [h52, ← two_zpow_add]
        congr 1
        omega
      rw [this]
      exact (log_bounds hr).1
    have hround := roundEven_mono hle
    rw [roundEven_int] at hround
    calc (2 : ℚ) ^ Int.log 2 r = 2 ^ (52 : ℤ) * 2 ^ place r := by
          rw [← two_zpow_add]
          congr 1
          omega
      _ ≤ roundEven (r / 2 ^ place r) * 2 ^ place r := by
          refine mul_le_mul_of_nonneg_right ?_ (two_zpow_pos _).le
          exact_mod_cast hround

/-- A bound by a power of two survives rounding, on both sides. -/
theorem nearest_le_two_zpow {q : ℚ} {e : ℤ} (hq : 0 ≤ q) (he : -1074 ≤ e) (h : q ≤ 2 ^ e) :
    nearest q ≤ 2 ^ e :=
  (nearest_mono hq h).trans (nearest_two_zpow he).le

theorem two_zpow_le_nearest {q : ℚ} {e : ℤ} (he : -1074 ≤ e) (h : 2 ^ e ≤ q) : 2 ^ e ≤ nearest q :=
  (nearest_two_zpow he).ge.trans (nearest_mono (two_zpow_pos e).le h)

theorem nearest_error {q : ℚ} : |nearest q - q| ≤ 2 ^ place q / 2 := by
  have h := roundEven_error (q / 2 ^ place q)
  have hp := two_zpow_pos (place q)
  have hdiff : nearest q - q = (roundEven (q / 2 ^ place q) - q / 2 ^ place q) * 2 ^ place q := by
    rw [sub_mul, div_mul_cancel₀ _ hp.ne', nearest]
  rw [hdiff, abs_mul, abs_of_pos hp]
  calc _ ≤ 1 / 2 * (2 : ℚ) ^ place q := mul_le_mul_of_nonneg_right h hp.le
    _ = 2 ^ place q / 2 := by ring

/-- Two different results are at least one last place of the smaller kind apart. -/
theorem nearest_gap {q r : ℚ} (hq : 0 ≤ q) (hr : 2 ^ (-1022 : ℤ) ≤ r) (h : nearest q < nearest r) :
    nearest q ≤ nearest r - nearest r / 2 ^ 53 := by
  have hrpos : 0 < r := lt_of_lt_of_le (two_zpow_pos _) hr
  have hr0 := nearest_nonneg hrpos.le
  rcases hq.eq_or_lt with rfl | hq
  · rw [nearest_zero]
    linarith
  have hle : q ≤ r := by
    by_contra hlt
    exact absurd (nearest_mono hrpos.le (not_le.mp hlt).le) (not_le.mpr h)
  have hlog : Int.log 2 q ≤ Int.log 2 r := Int.log_mono_right hq hle
  have hlogr : -1022 ≤ Int.log 2 r :=
    (Int.zpow_le_iff_le_log (b := 2) (by norm_num) hrpos).mp (by exact_mod_cast hr)
  obtain ⟨m, _, hm53, _, hm⟩ := nearest_form hq
  obtain ⟨k, _, hk53, _, hk⟩ := nearest_form hrpos
  have hk52 : 2 ^ 52 ≤ k := by
    have hlow : (2 : ℚ) ^ (place r + 52) ≤ nearest r := by
      have hplace : place r + 52 = Int.log 2 r := by
        unfold place
        omega
      rw [hplace]
      exact two_zpow_le_nearest (by omega) (log_bounds hrpos).1
    rw [hk, two_zpow_add, mul_comm] at hlow
    have := le_of_mul_le_mul_right hlow (two_zpow_pos _)
    exact_mod_cast this
  obtain ⟨d, hd⟩ : ∃ d : ℕ, place r = place q + d := by
    refine ⟨(place r - place q).toNat, ?_⟩
    have : place q ≤ place r := by
      unfold place
      omega
    omega
  have hw := two_zpow_pos (place q)
  have hscale : nearest r = ((k * 2 ^ d : ℤ) : ℚ) * 2 ^ place q := by
    rw [hk, hd, two_zpow_add, zpow_natCast]
    push_cast
    ring
  rw [hm, hscale] at h ⊢
  have hlt : m < k * 2 ^ d := by exact_mod_cast lt_of_mul_lt_mul_right h hw.le
  generalize hK : k * 2 ^ d = K at hlt ⊢
  -- The distance in units of the smaller last place.
  have hgap : K ≤ 2 ^ 53 * (K - m) := by
    match d with
    | 0 => omega
    | 1 => omega
    | d + 2 =>
        have hpow : (1 : ℤ) ≤ 2 ^ d := one_le_pow₀ (by norm_num)
        have hbig : 2 ^ 54 ≤ K := by
          rw [← hK, pow_add]
          nlinarith
        omega
  have hcast : (K : ℚ) ≤ 2 ^ 53 * (K - m) := by exact_mod_cast hgap
  have hdiv : (K : ℚ) * 2 ^ place q / 2 ^ 53 ≤ (K - m) * 2 ^ place q := by
    rw [div_le_iff₀ (by norm_num)]
    nlinarith
  linarith

/-- The relative error of a number that is not tiny. -/
theorem nearest_relative {q : ℚ} (hq : 2 ^ (-1022 : ℤ) ≤ q) : |nearest q - q| ≤ q / 2 ^ 53 := by
  have hpos : 0 < q := lt_of_lt_of_le (two_zpow_pos _) hq
  have hlog : -1022 ≤ Int.log 2 q :=
    (Int.zpow_le_iff_le_log (b := 2) (by norm_num) hpos).mp (by exact_mod_cast hq)
  have hplace : place q = Int.log 2 q - 52 := by
    unfold place
    omega
  refine nearest_error.trans ?_
  rw [hplace, sub_eq_add_neg, two_zpow_add]
  have := (log_bounds hpos).1
  have h52 : (2 : ℚ) ^ (-52 : ℤ) = 1 / 2 ^ 52 := by norm_num
  rw [h52, le_div_iff₀ (by norm_num)]
  linarith

/-- Rounding leaves a natural a natural. -/
theorem nearest_nat (n : ℕ) : ∃ m : ℕ, nearest n = m := by
  rcases Nat.lt_or_ge n (2 ^ 53) with hsmall | hlarge
  · have hexact := nearest_exact (k := n) (e := 0) (by omega) (by omega) (by norm_num)
    rw [zpow_zero, mul_one, Int.cast_natCast] at hexact
    exact ⟨n, hexact⟩
  · have hpos : (0 : ℚ) < n := by exact_mod_cast (Nat.two_pow_pos 53).trans_le hlarge
    obtain ⟨k, hk, -, -, hform⟩ := nearest_form hpos
    have hlog : 53 ≤ Int.log 2 (n : ℚ) :=
      (Int.zpow_le_iff_le_log (b := 2) (by norm_num) hpos).mp (by exact_mod_cast hlarge)
    obtain ⟨p, hp⟩ : ∃ p : ℕ, place (n : ℚ) = p :=
      ⟨(place (n : ℚ)).toNat, (Int.toNat_of_nonneg (by unfold place; omega)).symm⟩
    refine ⟨k.toNat * 2 ^ p, ?_⟩
    rw [hform, hp, zpow_natCast]
    push_cast
    rw [show ((k.toNat : ℕ) : ℚ) = k by exact_mod_cast Int.toNat_of_nonneg hk]

end WebHtop.Lib
