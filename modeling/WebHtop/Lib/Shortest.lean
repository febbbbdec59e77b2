import WebHtop.Lib.Binary64

/-!
# Shortest decimals

Decimals of seventeen digits are less than a last place of binary64 apart, so the search for the
digits that read back ends with some, and what it ends with rounds to the number.
-/

namespace WebHtop.Lib

open Binary64

/-! ## Rounding back -/

theorem roundEven_near {q : ℚ} {m : ℤ} (h : |q - m| < 1 / 2) : roundEven q = m := by
  have herror := roundEven_error q
  have hsplit : ((roundEven q - m : ℤ) : ℚ) = (roundEven q - q) + (q - m) := by
    push_cast
    ring
  have hdist : |((roundEven q - m : ℤ) : ℚ)| < 1 := by
    rw [hsplit]
    linarith [abs_add_le ((roundEven q : ℚ) - q) (q - m)]
  have hint : |roundEven q - m| < 1 := by exact_mod_cast hdist
  have := Int.abs_lt_one_iff.mp hint
  omega

variable {q x a s : ℚ}

/-- Less than half a last place from a number, rounding gives the number. -/
theorem nearest_near (hn : nearest q = q) (hplace : place x = place q)
    (h : |x - q| < 2 ^ place q / 2) : nearest x = q := by
  have hp := two_zpow_pos (place q)
  obtain ⟨m, hm⟩ : ∃ m : ℤ, m * 2 ^ place q = q := ⟨_, hn⟩
  have hquotient : q / 2 ^ place q = m := (div_eq_iff hp.ne').mpr hm.symm
  have hdiff : x / 2 ^ place q - m = (x - q) / 2 ^ place q := by
    rw [sub_div, hquotient]
  have hquot : |x / 2 ^ place q - m| < 1 / 2 := by
    rw [hdiff, abs_div, abs_of_pos hp, div_lt_iff₀ hp]
    linarith
  rw [nearest, hplace, roundEven_near hquot, hm]

theorem place_of_le (hq : 0 < q) (hle : q ≤ x) (hlt : x < 2 ^ (place q + 53)) :
    place x = place q := by
  have hlog : Int.log 2 q ≤ Int.log 2 x := Int.log_mono_right hq hle
  have hlog' : Int.log 2 x < place q + 53 :=
    (Int.lt_zpow_iff_log_lt (b := 2) (by norm_num) (hq.trans_le hle)).mp (by exact_mod_cast hlt)
  unfold place at *
  omega

theorem place_of_ge (hx : 0 < x) (hle : x ≤ q)
    (hlow : place q = -1074 ∨ 2 ^ (place q + 52) ≤ x) : place x = place q := by
  have hlog : Int.log 2 x ≤ Int.log 2 q := Int.log_mono_right hx hle
  rcases hlow with hmin | hlow
  · unfold place at *
    omega
  · have hlog' : place q + 52 ≤ Int.log 2 x :=
      (Int.zpow_le_iff_le_log (b := 2) (by norm_num) hx).mp (by exact_mod_cast hlow)
    unfold place at *
    omega

/-- Of two numbers around a binary64 number, a 10^16th of it apart, one rounds to it. -/
theorem nearest_bracket (hq : 0 < q) (hn : nearest q = q) (ha0 : 0 < a) (ha : a ≤ q)
    (hb : q < a + s) (hs : s * 10 ^ 16 ≤ q) : nearest a = q ∨ nearest (a + s) = q := by
  obtain ⟨m, hm⟩ : ∃ m : ℤ, m * 2 ^ place q = q := ⟨_, hn⟩
  have hu := two_zpow_pos (place q)
  have htop : q < 2 ^ 53 * 2 ^ place q := (div_lt_iff₀ hu).mp (div_place_lt hq)
  by_cases hnear : a + s - q < 2 ^ place q / 2
  · right
    have hroom : q + 2 ^ place q ≤ 2 ^ 53 * 2 ^ place q := by
      have hm53 : m < 2 ^ 53 := by
        have : (m : ℚ) < 2 ^ 53 := lt_of_mul_lt_mul_right (hm.trans_lt htop) hu.le
        exact_mod_cast this
      have : ((m : ℚ) + 1) * 2 ^ place q ≤ 2 ^ 53 * 2 ^ place q :=
        mul_le_mul_of_nonneg_right (by exact_mod_cast hm53) hu.le
      linarith
    refine nearest_near hn (place_of_le hq hb.le ?_) ?_
    · have hsum : a + s < q + 2 ^ place q := by linarith
      rw [add_comm (place q), two_zpow_add]
      exact hsum.trans_le hroom
    · rw [abs_lt]
      constructor <;> linarith
  · left
    have hbelow : q - a < 2 ^ place q / 2 := by linarith
    refine nearest_near hn (place_of_ge ha0 ha (or_iff_not_imp_right.mpr fun hlow => ?_)) ?_
    · -- Otherwise `q` is the least of its binade, where `s` is less than half a last place.
      rw [not_le, add_comm (place q), two_zpow_add] at hlow
      have hlow : a < 2 ^ 52 * 2 ^ place q := hlow
      linarith
    · rw [abs_lt]
      constructor <;> linarith

/-! ## The search -/

/-- What the search gives rounds back and has no more digits than were asked for. -/
structure Reads (q : ℚ) (c : ℕ) (k : ℤ) : Prop where
  nearest : nearest (c * 10 ^ k) = q
  pos : 0 < c
  digits : c < 10 ^ 17
  least : Int.log 10 q - 16 ≤ k
  most : k ≤ Int.log 10 q + 1

theorem ten_zpow_pos (k : ℤ) : (0 : ℚ) < 10 ^ k := zpow_pos (by norm_num) k

section

variable {n c : ℕ} {k : ℤ}

theorem scaled_bounds (hq : 0 < q) (hn : 0 < n) :
    (10 : ℚ) ^ (n - 1) ≤ q / 10 ^ (Int.log 10 q - (n - 1)) ∧
      q / 10 ^ (Int.log 10 q - (n - 1)) < 10 ^ n := by
  have hten := ten_zpow_pos (Int.log 10 q - (n - 1))
  have hlow : (10 : ℚ) ^ Int.log 10 q ≤ q := by
    exact_mod_cast Int.zpow_log_le_self (by norm_num : 1 < 10) hq
  have hhigh : q < (10 : ℚ) ^ (Int.log 10 q + 1) := by
    exact_mod_cast Int.lt_zpow_succ_log_self (by norm_num : 1 < 10) q
  have hleast : ((n - 1 : ℕ) : ℤ) + (Int.log 10 q - (n - 1)) = Int.log 10 q := by omega
  have hmost : (n : ℤ) + (Int.log 10 q - (n - 1)) = Int.log 10 q + 1 := by omega
  rw [le_div_iff₀ hten, div_lt_iff₀ hten, ← zpow_natCast, ← zpow_natCast, ← zpow_add₀ (by norm_num),
    ← zpow_add₀ (by norm_num), hleast, hmost]
  exact ⟨hlow, hhigh⟩

theorem decimalNear_reads (hq : 0 < q) (hn : 0 < n) (hn17 : n ≤ 17)
    (h : decimalNear q n = some (c, k)) : Reads q c k := by
  unfold decimalNear at h
  dsimp only at h
  obtain ⟨c₀, hnear, hc⟩ := Option.map_eq_some_iff.mp h
  have hmem : c₀ ∈ [⌊q / 10 ^ (Int.log 10 q - (n - 1))⌋₊, ⌊q / 10 ^ (Int.log 10 q - (n - 1))⌋₊ + 1].filter
      fun c : ℕ => nearest (c * 10 ^ (Int.log 10 q - (n - 1))) = q := by
    split at hnear
    · cases hnear
    · rename_i heq
      rw [heq]
      exact List.mem_singleton.mpr (Option.some.inj hnear).symm
    · rename_i heq
      rw [heq, ← Option.some.inj hnear]
      split_ifs <;> simp
  obtain ⟨hmem, hnearest⟩ := List.mem_filter.mp hmem
  have hnearest := of_decide_eq_true hnearest
  obtain ⟨-, hhigh⟩ := scaled_bounds hq hn
  have hbelow : ⌊q / 10 ^ (Int.log 10 q - (n - 1))⌋₊ < 10 ^ n :=
    (Nat.floor_lt (div_nonneg hq.le (ten_zpow_pos _).le)).mpr (by exact_mod_cast hhigh)
  have hle : c₀ ≤ 10 ^ n := by
    simp only [List.mem_cons, List.not_mem_nil, or_false] at hmem
    omega
  have hpos : 0 < c₀ := by
    refine Nat.pos_of_ne_zero fun hzero => ?_
    rw [hzero, Nat.cast_zero, zero_mul, nearest_zero] at hnearest
    exact hq.ne hnearest
  split_ifs at hc with hcarry
  · obtain ⟨rfl, rfl⟩ := Prod.mk.inj hc
    refine ⟨?_, one_pos, by norm_num, by omega, by omega⟩
    have hsame : ((1 : ℕ) : ℚ) * 10 ^ (Int.log 10 q - (n - 1) + n) =
        c₀ * 10 ^ (Int.log 10 q - (n - 1)) := by
      rw [hcarry, zpow_add₀ (by norm_num), zpow_natCast]
      push_cast
      ring
    rw [hsame, hnearest]
  · obtain ⟨rfl, rfl⟩ := Prod.mk.inj hc
    refine ⟨hnearest, hpos, ?_, by omega, by omega⟩
    exact (lt_of_le_of_ne hle hcarry).trans_le (Nat.pow_le_pow_right (by norm_num) hn17)

/-- The search stops where one of the two decimals rounds back. -/
theorem decimalNear_isSome
    (hmem : c ∈ [⌊q / 10 ^ (Int.log 10 q - (n - 1))⌋₊, ⌊q / 10 ^ (Int.log 10 q - (n - 1))⌋₊ + 1])
    (hnear : nearest (c * 10 ^ (Int.log 10 q - (n - 1))) = q) : (decimalNear q n).isSome = true := by
  unfold decimalNear
  dsimp only
  rw [Option.isSome_map]
  split
  · rename_i hnone
    exact absurd (decide_eq_true hnear) (List.filter_eq_nil_iff.mp hnone c hmem)
  · rfl
  · rfl

/-- Seventeen digits are enough. -/
theorem decimalNear_seventeen (hq : 0 < q) (hn : nearest q = q) : (decimalNear q 17).isSome = true := by
  have hten := ten_zpow_pos (Int.log 10 q - ((17 : ℕ) - 1))
  obtain ⟨hlow, -⟩ := scaled_bounds (n := 17) hq (by norm_num)
  have hpos : 0 < ⌊q / 10 ^ (Int.log 10 q - ((17 : ℕ) - 1))⌋₊ :=
    Nat.floor_pos.mpr (le_trans (by norm_num) hlow)
  have hle := (le_div_iff₀ hten).mp (Nat.floor_le (div_nonneg hq.le hten.le))
  have hlt := (div_lt_iff₀ hten).mp (Nat.lt_floor_add_one (q / 10 ^ (Int.log 10 q - ((17 : ℕ) - 1))))
  rw [add_one_mul] at hlt
  rw [le_div_iff₀ hten, mul_comm] at hlow
  rcases nearest_bracket hq hn (mul_pos (by exact_mod_cast hpos) hten) hle hlt hlow with h | h
  · exact decimalNear_isSome List.mem_cons_self h
  · refine decimalNear_isSome (List.mem_cons_of_mem _ List.mem_cons_self) ?_
    rw [Nat.cast_add_one, add_one_mul]
    exact h

theorem shortest_reads (hq : 0 < q) (hn : nearest q = q) : Reads q (shortest q).1 (shortest q).2 := by
  have hsome : ((List.range' 1 17).findSome? (decimalNear q)).isSome = true :=
    List.findSome?_isSome_iff.mpr ⟨17, by decide, decimalNear_seventeen hq hn⟩
  obtain ⟨⟨c, k⟩, hfound⟩ := Option.isSome_iff_exists.mp hsome
  obtain ⟨n, hmem, hnear⟩ := List.exists_of_findSome?_eq_some hfound
  have hrange := List.mem_range'_1.mp hmem
  rw [shortest, hfound]
  exact decimalNear_reads hq (by omega) (by omega) hnear

end

end WebHtop.Lib
