import WebHtop.Lib.Rounding

/-!
# Percentages in rounded arithmetic

`100 * u / t` for two rounded naturals, with every operation rounded. The quotient goes over
100 only where `u = t`, and then it depends on the leading 53 bits of `t` alone.
-/

namespace WebHtop.Lib

/-- The 53 leading bits of a number with at most 53 bits. -/
def significand (t : ℚ) : ℤ := ⌊t / 2 ^ (Int.log 2 t - 52)⌋

/-- `100 * t` is rounded up by more than `t / 2 ^ 47`, in terms of the significand of `t`. -/
def Overshoots (m : ℤ) : Prop :=
  2 ^ 57 ≤ 25 * m ∧ (16 < 25 * m % 32 ∧ m < 2 ^ 49 * (32 - 25 * m % 32) ∨ 25 * m % 64 = 48)

instance (m : ℤ) : Decidable (Overshoots m) := inferInstanceAs (Decidable (_ ∧ _))

theorem nearest_hundred {y : ℚ} (hy : 0 ≤ y) : 100 < nearest y ↔ 100 + 1 / 2 ^ 47 < y := by
  have hedge : nearest (100 + 1 / 2 ^ 47) = 100 := by
    have hplace := nearest_of_place (q := 100 + 1 / 2 ^ 47) (p := -46) (by norm_num) (by norm_num)
      (by norm_num)
    have hquot : (100 + 1 / 2 ^ 47 : ℚ) / 2 ^ (-46 : ℤ) = ((200 * 2 ^ 46 + 1 : ℤ) : ℚ) / (2 : ℕ) := by
      norm_num
    rw [hplace, hquot, roundEven_div _ (by norm_num)]
    norm_num
  constructor
  · intro h
    by_contra hle
    have := nearest_mono hy (not_lt.mp hle)
    rw [hedge] at this
    exact absurd h (not_lt.mpr this)
  · intro h
    -- The next number after 100.
    have hnext : nearest (((100 * 2 ^ 46 + 1 : ℤ) : ℚ) * 2 ^ (-46 : ℤ)) =
        ((100 * 2 ^ 46 + 1 : ℤ) : ℚ) * 2 ^ (-46 : ℤ) :=
      nearest_exact (by norm_num) (by norm_num) (by norm_num)
    by_cases hlarge : ((100 * 2 ^ 46 + 1 : ℤ) : ℚ) * 2 ^ (-46 : ℤ) ≤ y
    · refine lt_of_lt_of_le ?_ (hnext.ge.trans (nearest_mono (by positivity) hlarge))
      norm_num
    · rw [not_le] at hlarge
      have h128 : y < 2 ^ ((-46 : ℤ) + 53) := hlarge.trans (by norm_num)
      have h64 : 2 ^ ((-46 : ℤ) + 52) ≤ y := le_trans (by norm_num) h.le
      have hfloor : ⌊y / 2 ^ (-46 : ℤ)⌋ = 100 * 2 ^ 46 := by
        rw [Int.floor_eq_iff]
        constructor
        · rw [le_div_iff₀ (two_zpow_pos _)]
          refine le_trans ?_ h.le
          norm_num
        · rw [div_lt_iff₀ (two_zpow_pos _)]
          refine hlarge.trans_le ?_
          norm_num
      have hfrac : 1 / 2 < y / 2 ^ (-46 : ℤ) - ((100 * 2 ^ 46 : ℤ) : ℚ) := by
        rw [lt_sub_iff_add_lt, lt_div_iff₀ (two_zpow_pos _)]
        refine lt_of_le_of_lt ?_ h
        norm_num
      rw [nearest_of_place (by norm_num) h64 h128, roundEven, hfloor, if_neg (not_lt.mpr hfrac.le),
        if_pos hfrac]
      norm_num

/-- Rounding `25 * m` to a multiple of 32, in integers. -/
theorem overshoots_iff {m : ℤ} (h52 : 2 ^ 52 ≤ m) (h53 : m < 2 ^ 53) (hbig : 2 ^ 57 ≤ 25 * m) :
    100 * 2 ^ 47 * m + m < 2 ^ 47 * (2 ^ 7 * roundEven ((25 * m : ℤ) / (32 : ℕ))) ↔
      Overshoots m := by
  rw [roundEven_div _ (by norm_num), Overshoots]
  have hmod : 25 * m % 64 = 48 ↔ 25 * m % 32 = 16 ∧ ¬ 2 ∣ 25 * m / 32 := by
    generalize 25 * m = x
    omega
  have hdiv : 25 * m = 32 * (25 * m / 32) + 25 * m % 32 := by omega
  have hr0 : 0 ≤ 25 * m % 32 := by omega
  have hr32 : 25 * m % 32 < 32 := by omega
  simp only [hmod, hbig, true_and, Nat.cast_ofNat]
  generalize 25 * m % 32 = r at *
  generalize 25 * m / 32 = a at *
  rcases lt_trichotomy r 16 with hr | rfl | hr
  · have hle : ¬ 16 < r := by omega
    have hne : r ≠ 16 := by omega
    rw [if_pos (by omega)]
    simp only [hle, hne, false_and, or_false, iff_false, not_lt]
    omega
  · rw [if_neg (by omega), if_neg (by omega)]
    by_cases hodd : 2 ∣ a
    · rw [if_pos hodd]
      simp only [lt_irrefl, false_and, hodd, not_true_eq_false, and_false, or_false, iff_false,
        not_lt]
      omega
    · rw [if_neg hodd]
      simp only [hodd, not_false_eq_true, and_true, or_true, iff_true]
      omega
  · rw [if_neg (by omega), if_pos (by omega)]
    have hne : r ≠ 16 := by omega
    simp only [hr, hne, true_and, false_and, or_false]
    omega

/-- Rounding `25 * m` to a multiple of 16 stays too close. -/
theorem not_overshoots {m R : ℤ} (h52 : 2 ^ 52 ≤ m) (hR : 16 * R ≤ 25 * m + 8) :
    ¬ 100 * 2 ^ 47 * m + m < 2 ^ 47 * (2 ^ 6 * R) := by
  omega

theorem hundred_overshoots {m e : ℤ} (h52 : 2 ^ 52 ≤ m) (h53 : m < 2 ^ 53) (he : -1074 ≤ e) :
    (100 + 1 / 2 ^ 47) * (m * 2 ^ e) < nearest (100 * (m * 2 ^ e)) ↔ Overshoots m := by
  have hw := two_zpow_pos e
  have hshift : ∀ j : ℕ, (2 : ℚ) ^ (e + j) = 2 ^ j * 2 ^ e := by
    intro j
    rw [two_zpow_add, zpow_natCast, mul_comm]
  have hq : (100 * (m * 2 ^ e) : ℚ) = ((25 * m : ℤ) : ℚ) * (4 * 2 ^ e) := by
    push_cast
    ring
  -- The place of `100 * t` lies 6 or 7 binary digits above that of `t`.
  have hrounded : ∀ j : ℕ, 2 ^ (56 + j) ≤ 25 * m → 25 * m < 2 ^ (57 + j) →
      nearest (100 * (m * 2 ^ e)) = ((2 ^ (6 + j) * roundEven (((25 * m : ℤ) : ℚ) / (16 * 2 ^ j : ℕ)) : ℤ) : ℚ) * 2 ^ e := by
    intro j h0 h1
    have h0q : ((2 ^ (56 + j) : ℤ) : ℚ) ≤ ((25 * m : ℤ) : ℚ) := by exact_mod_cast h0
    have h1q : ((25 * m : ℤ) : ℚ) < ((2 ^ (57 + j) : ℤ) : ℚ) := by exact_mod_cast h1
    have hlow : (2 : ℚ) ^ (e + (6 + j : ℕ) + 52) ≤ 100 * (m * 2 ^ e) := by
      have : e + ((6 + j : ℕ) : ℤ) + 52 = e + ((58 + j : ℕ) : ℤ) := by
        push_cast
        ring
      rw [this, hshift, hq]
      have : (2 : ℚ) ^ (58 + j) * 2 ^ e = ((2 ^ (56 + j) : ℤ) : ℚ) * (4 * 2 ^ e) := by
        push_cast
        ring
      rw [this]
      exact mul_le_mul_of_nonneg_right h0q (by positivity)
    have hhigh : 100 * (m * 2 ^ e) < (2 : ℚ) ^ (e + (6 + j : ℕ) + 53) := by
      have : e + ((6 + j : ℕ) : ℤ) + 53 = e + ((59 + j : ℕ) : ℤ) := by
        push_cast
        ring
      rw [this, hshift, hq]
      have : (2 : ℚ) ^ (59 + j) * 2 ^ e = ((2 ^ (57 + j) : ℤ) : ℚ) * (4 * 2 ^ e) := by
        push_cast
        ring
      rw [this]
      exact mul_lt_mul_of_pos_right h1q (by positivity)
    rw [nearest_of_place (by omega) hlow hhigh, hq, hshift]
    have hquot : ((25 * m : ℤ) : ℚ) * (4 * 2 ^ e) / (2 ^ (6 + j) * 2 ^ e) =
        ((25 * m : ℤ) : ℚ) / ((16 * 2 ^ j : ℕ) : ℚ) := by
      rw [div_eq_div_iff (by positivity) (by positivity)]
      push_cast
      ring
    rw [hquot]
    push_cast
    ring
  have hcompare : ∀ R : ℤ, (100 + 1 / 2 ^ 47) * (m * 2 ^ e) < ((R : ℤ) : ℚ) * 2 ^ e ↔
      100 * 2 ^ 47 * m + m < 2 ^ 47 * R := by
    intro R
    have hleft : (100 + 1 / 2 ^ 47) * (m * 2 ^ e) = (((100 * 2 ^ 47 * m + m : ℤ) : ℚ) / 2 ^ 47) * 2 ^ e := by
      push_cast
      ring
    rw [hleft, mul_lt_mul_iff_left₀ hw, div_lt_iff₀ (by norm_num)]
    constructor <;> intro h
    · have : ((100 * 2 ^ 47 * m + m : ℤ) : ℚ) < ((2 ^ 47 * R : ℤ) : ℚ) := by push_cast at h ⊢; linarith
      exact_mod_cast this
    · have : ((100 * 2 ^ 47 * m + m : ℤ) : ℚ) < ((2 ^ 47 * R : ℤ) : ℚ) := by exact_mod_cast h
      push_cast at this ⊢
      linarith
  by_cases hbig : 2 ^ 57 ≤ 25 * m
  · rw [hrounded 1 (by omega) (by omega), hcompare]
    exact overshoots_iff h52 h53 hbig
  · rw [hrounded 0 (by omega) (by omega), hcompare]
    have herror := roundEven_error (((25 * m : ℤ) : ℚ) / ((16 * 2 ^ 0 : ℕ) : ℚ))
    generalize roundEven (((25 * m : ℤ) : ℚ) / ((16 * 2 ^ 0 : ℕ) : ℚ)) = R at herror ⊢
    have hR : 16 * R ≤ 25 * m + 8 := by
      have hupper := (abs_le.mp herror).2
      have : ((16 * R : ℤ) : ℚ) ≤ ((25 * m + 8 : ℤ) : ℚ) := by
        push_cast at hupper ⊢
        linarith
      exact_mod_cast this
    have hnot : ¬ Overshoots m := fun h => hbig h.1
    simp only [hnot, iff_false]
    exact not_overshoots h52 hR

/-- A number with at most 53 bits is its significand times a power of two. -/
theorem significand_spec {q : ℚ} (hq : 2 ^ (-1022 : ℤ) ≤ q) : ∃ e : ℤ, -1074 ≤ e ∧
    2 ^ 52 ≤ significand (nearest q) ∧ significand (nearest q) < 2 ^ 53 ∧
      nearest q = significand (nearest q) * 2 ^ e := by
  have hpos : 0 < q := lt_of_lt_of_le (two_zpow_pos _) hq
  have hlow := two_zpow_le_nearest (by norm_num) hq
  have ht : 0 < nearest q := lt_of_lt_of_le (two_zpow_pos _) hlow
  have hlog : -1022 ≤ Int.log 2 (nearest q) :=
    (Int.zpow_le_iff_le_log (b := 2) (by norm_num) ht).mp (by exact_mod_cast hlow)
  obtain ⟨hlo, hhi⟩ := log_bounds ht
  have hplace : place (nearest q) = Int.log 2 (nearest q) - 52 := by
    unfold place
    omega
  -- Rounding changes nothing, so the quotient by the last place is an integer.
  have hint : nearest q / 2 ^ (Int.log 2 (nearest q) - 52) =
      roundEven (nearest q / 2 ^ (Int.log 2 (nearest q) - 52)) := by
    have hsame := nearest_nearest hpos.le
    rw [nearest, hplace] at hsame
    rw [div_eq_iff (two_zpow_pos _).ne']
    exact hsame.symm
  have hsig : (significand (nearest q) : ℚ) = nearest q / 2 ^ (Int.log 2 (nearest q) - 52) := by
    rw [significand, hint, Int.floor_intCast]
  have hscale : ∀ n : ℕ, ((2 ^ n : ℤ) : ℚ) * 2 ^ (Int.log 2 (nearest q) - 52) =
      2 ^ (n + (Int.log 2 (nearest q) - 52)) := by
    intro n
    rw [two_zpow_add, zpow_natCast, Int.cast_pow, Int.cast_ofNat]
  refine ⟨Int.log 2 (nearest q) - 52, by omega, ?_, ?_, ?_⟩
  · have : ((2 ^ 52 : ℤ) : ℚ) ≤ significand (nearest q) := by
      rw [hsig, le_div_iff₀ (two_zpow_pos _), hscale 52]
      exact (two_zpow_le (by push_cast; omega)).trans hlo
    exact_mod_cast this
  · have : (significand (nearest q) : ℚ) < ((2 ^ 53 : ℤ) : ℚ) := by
      rw [hsig, div_lt_iff₀ (two_zpow_pos _), hscale 53]
      exact hhi.trans_le (two_zpow_le (by push_cast; omega))
    exact_mod_cast this
  · rw [hsig, div_mul_cancel₀ _ (two_zpow_pos _).ne']

/-- When the rounded percentage of two numbers is over 100. -/
theorem quotient_over {q r : ℚ} (hq : q = 0 ∨ 2 ^ (-1022 : ℤ) ≤ q) (hr : 2 ^ (-1022 : ℤ) ≤ r)
    (hqr : q ≤ r) :
    100 < nearest (nearest (100 * nearest q) / nearest r) ↔
      nearest q = nearest r ∧ Overshoots (significand (nearest r)) := by
  have hq0 : 0 ≤ q := hq.elim (fun h => h.ge) fun h => (two_zpow_pos _).le.trans h
  have hle : nearest q ≤ nearest r := nearest_mono hq0 hqr
  have hrpos : 0 < nearest r :=
    lt_of_lt_of_le (two_zpow_pos _) (two_zpow_le_nearest (by norm_num) hr)
  have hqnear := nearest_nonneg hq0
  rw [nearest_hundred (div_nonneg (nearest_nonneg (by positivity)) hrpos.le), lt_div_iff₀ hrpos]
  rcases hle.eq_or_lt with heq | hlt
  · obtain ⟨e, he, h52, h53, hsig⟩ := significand_spec hr
    rw [heq, hsig]
    simp only [← hsig, true_and]
    rw [hsig, hundred_overshoots h52 h53 he, ← hsig]
  · -- One place below, the error of the product cannot make up for the distance.
    have hne : ¬ (nearest q = nearest r ∧ Overshoots (significand (nearest r))) :=
      fun h => hlt.ne h.1
    simp only [hne, iff_false, not_lt]
    rcases hq with rfl | hq1
    · rw [nearest_zero, mul_zero, nearest_zero]
      positivity
    · have hgap := nearest_gap hq0 hr hlt
      have hqnorm := two_zpow_le_nearest (by norm_num) hq1
      have hprod : (2 : ℚ) ^ (-1022 : ℤ) ≤ 100 * nearest q := by linarith
      have herror := (abs_le.mp (nearest_relative hprod)).2
      nlinarith

/-- A positive natural is no subnormal number. -/
theorem normal_nat {n : ℕ} (hn : 0 < n) : (2 : ℚ) ^ (-1022 : ℤ) ≤ n := by
  have h1 : (1 : ℚ) ≤ n := by exact_mod_cast hn
  exact (two_zpow_le (by norm_num : (-1022 : ℤ) ≤ 0)).trans (by simpa using h1)

/-- When the rounded percentage of two naturals is over 100. -/
theorem percentage_over {u t : ℕ} (ht : 0 < t) (hut : u ≤ t) :
    100 < nearest (nearest (100 * nearest u) / nearest t) ↔
      nearest u = nearest t ∧ Overshoots (significand (nearest t)) := by
  refine quotient_over ?_ (normal_nat ht) (by exact_mod_cast hut)
  rcases Nat.eq_zero_or_pos u with rfl | hu
  · exact .inl Nat.cast_zero
  · exact .inr (normal_nat hu)

/-- A natural below 2^46 leaves six of its 53 bits zero, and its percentage is not rounded up. -/
theorem not_overshoots_small {n : ℕ} (hn : n < 2 ^ 46) : ¬ Overshoots (significand n) := by
  rcases Nat.eq_zero_or_pos n with rfl | hpos
  · simp [significand, Overshoots]
  · have hlog : Nat.log 2 n < 46 := Nat.log_lt_of_lt_pow hpos.ne' hn
    obtain ⟨j, hj⟩ : ∃ j, 52 - Nat.log 2 n = 6 + j := ⟨46 - Nat.log 2 n, by omega⟩
    have hexponent : (Nat.log 2 n : ℤ) - 52 = -((6 + j : ℕ) : ℤ) := by omega
    have hquot : (n : ℚ) / 2 ^ (Int.log 2 (n : ℚ) - 52) = ((n * 2 ^ (6 + j) : ℕ) : ℤ) := by
      rw [show Int.log 2 (n : ℚ) = Nat.log 2 n from Int.log_natCast 2 n, hexponent, zpow_neg,
        zpow_natCast, div_inv_eq_mul]
      push_cast
      rfl
    have hsignificand : significand n = 64 * (n * 2 ^ j : ℕ) := by
      rw [significand, hquot, Int.floor_intCast, pow_add]
      push_cast
      ring
    rw [hsignificand, Overshoots]
    omega

end WebHtop.Lib
