import WebHtop.Server.Collectors.CpuTopology

/-!
# CPU usages in binary64

The sums over the counters are naturals whatever is rounded away, and the idle part is never more
than the whole. So a usage is not negative, and it goes over 100 only where the busy part and the
whole are one double.
-/

namespace WebHtop.Server.Collectors

open WebHtop.Lib WebHtop.Common
open Binary64 (Is)

/-- Rounding a sum of naturals that is not too large. -/
theorem is_add {a b : Binary64} {m n : ℕ} {e : ℤ} (ha : Is a m) (hb : Is b n) (he : 0 ≤ e)
    (h1024 : e < 1024) (hle : (m + n : ℚ) ≤ 2 ^ e) :
    ∃ k : ℕ, Is (Arithmetic.add a b) k ∧ nearest (m + n) = k ∧ (k : ℚ) ≤ 2 ^ e := by
  have h0 : (0 : ℚ) ≤ m + n := by positivity
  obtain ⟨k, hk⟩ := nearest_nat (m + n)
  rw [Nat.cast_add] at hk
  have hsum := ha.add hb (Binary64.nearest_lt_overflow h0 (by omega) hle h1024)
  rw [hk] at hsum
  exact ⟨k, hsum, hk, hk ▸ nearest_le_two_zpow h0 (by omega) hle⟩

/-- The sums of the loop, from sums that are naturals. -/
theorem cpuDeltas_is (counters : List (UInt64 × UInt64)) {n : ℕ} (hn : n + counters.length ≤ 8)
    (i : Nat) {total idle : Binary64} {t s : ℕ} (ht : Is total t) (hs : Is idle s) (hle : s ≤ t)
    (hlarge : (t : ℚ) ≤ 2 ^ (64 + n : ℤ)) {total' idle' : Binary64}
    (h : cpuDeltas i counters total idle = some (total', idle')) :
    ∃ t' s' : ℕ, Is total' t' ∧ Is idle' s' ∧ s' ≤ t' ∧ (t' : ℚ) ≤ 2 ^ (72 : ℤ) ∧
      Growing counters ∧ (t + spent counters ≤ 2 ^ 53 → (t' : ℚ) = t + spent counters) := by
  induction counters generalizing n i total idle t s with
  | nil =>
    obtain ⟨rfl, rfl⟩ := Prod.mk.inj (Option.some.inj h)
    refine ⟨t, s, ht, hs, hle, hlarge.trans (two_zpow_le (by omega)),
      fun e he => absurd he List.not_mem_nil, fun _ => ?_⟩
    simp [spent]
  | cons e counters ih =>
    obtain ⟨now, before⟩ := e
    rw [cpuDeltas] at h
    split at h
    · cases h
    · rename_i hlt
      rw [List.length_cons] at hn
      obtain ⟨d, hd⟩ := nearest_nat (now - before).toNat
      have hdelta : Is (Double.ofUInt64 (now - before)) (d : ℚ) := hd ▸ is_ofUInt64 _
      have hd64 : (d : ℚ) ≤ 2 ^ (64 : ℤ) := hd ▸ nearest_toNat_le _
      have hbound {m : ℕ} (hm : m ≤ t) : (m + d : ℚ) ≤ 2 ^ (64 + (n + 1 : ℕ) : ℤ) := by
        have hmt : (m : ℚ) ≤ t := by exact_mod_cast hm
        have hstep : (2 : ℚ) ^ (64 + (n + 1 : ℕ) : ℤ) = 2 ^ (64 + n : ℤ) * 2 := by
          rw [show (64 + (n + 1 : ℕ) : ℤ) = (64 + n) + 1 by push_cast; ring, two_zpow_add, zpow_one]
        have hsmall : (2 : ℚ) ^ (64 : ℤ) ≤ 2 ^ (64 + n : ℤ) := two_zpow_le (by omega)
        rw [hstep]
        linarith
      obtain ⟨t', ht', hround, hlarge'⟩ :=
        is_add ht hdelta (by omega) (by omega) (hbound (le_refl t))
      -- The idle part stays behind, whether it grows or not.
      obtain ⟨s', hs', hle'⟩ : ∃ s' : ℕ,
          Is (if i = 3 ∨ i = 4 then Arithmetic.add idle (Double.ofUInt64 (now - before)) else idle) s' ∧
            s' ≤ t' := by
        split
        · obtain ⟨s', hs', hround', -⟩ := is_add hs hdelta (by omega) (by omega) (hbound hle)
          refine ⟨s', hs', ?_⟩
          have hmono : nearest (s + d) ≤ nearest (t + d) :=
            nearest_mono (by positivity) (by exact_mod_cast Nat.add_le_add_right hle d)
          rw [hround, hround'] at hmono
          exact_mod_cast hmono
        · refine ⟨s, hs, hle.trans ?_⟩
          have hmono : nearest t ≤ nearest (t + d) :=
            nearest_mono (by positivity) (by simp)
          rw [ht.nearest, hround] at hmono
          exact_mod_cast hmono
      obtain ⟨t'', s'', htotal, hidle, hle'', hlarge'', hgrowing, hexact⟩ :=
        ih (n := n + 1) (by omega) (i + 1) ht' hs' hle' hlarge' h
      have hge : before ≤ now := UInt64.not_lt.mp hlt
      refine ⟨t'', s'', htotal, hidle, hle'', hlarge'',
        List.forall_mem_cons.mpr ⟨hge, hgrowing⟩, fun hsmall => ?_⟩
      have hsub : (((now - before).toNat : ℕ) : ℚ) = (now.toNat : ℚ) - before.toNat := by
        rw [UInt64.toNat_sub_of_le _ _ hge, Nat.cast_sub (UInt64.le_iff_toNat_le.mp hge)]
      have hspent : 0 ≤ spent counters := by
        refine List.sum_nonneg fun x hx => ?_
        obtain ⟨e, he, rfl⟩ := List.mem_map.mp hx
        have : ((e.2.toNat : ℕ) : ℚ) ≤ e.1.toNat := by
          exact_mod_cast UInt64.le_iff_toNat_le.mp (hgrowing e he)
        linarith
      have hsum : spent ((now, before) :: counters) =
          ((now.toNat : ℚ) - before.toNat) + spent counters := List.sum_cons
      rw [hsum, ← hsub] at hsmall ⊢
      have hnat {m : ℕ} (hm : (m : ℚ) ≤ 2 ^ 53) : nearest m = m := by
        have := nearest_exact (k := m) (e := 0) (by omega) (by exact_mod_cast hm) (by norm_num)
        simpa using this
      have hd0 : (0 : ℚ) ≤ ((now - before).toNat : ℕ) := Nat.cast_nonneg _
      have ht0 : (0 : ℚ) ≤ t := Nat.cast_nonneg _
      have hdexact : (d : ℚ) = ((now - before).toNat : ℕ) := hd ▸ hnat (by linarith)
      have htexact : (t' : ℚ) = t + ((now - before).toNat : ℕ) := by
        rw [← hround, hdexact, ← Nat.cast_add]
        exact hnat (by push_cast; linarith)
      rw [hexact (by rw [htexact]; linarith), htexact]
      ring

/-- The busy part and the whole are one double, and it is one whose percentage of itself is rounded
over 100. -/
def BusyOver (now before : CpuTimes) : Prop :=
  ∃ total idle : Binary64, cpuDeltas 0 (now.val.zip before.val) zero zero = some (total, idle) ∧
    nearest (total.val - idle.val) = total.val ∧ Overshoots (significand total.val)

/-- The loop from zero. -/
theorem cpuDeltas_zero {now before : CpuTimes} {total idle : Binary64}
    (h : cpuDeltas 0 (now.val.zip before.val) zero zero = some (total, idle)) :
    ∃ t s : ℕ, Is total t ∧ Is idle s ∧ s ≤ t ∧ (t : ℚ) ≤ 2 ^ (72 : ℤ) ∧
      Growing (now.val.zip before.val) ∧
        (spent (now.val.zip before.val) ≤ 2 ^ 53 → (t : ℚ) = spent (now.val.zip before.val)) := by
  have hlength : (now.val.zip before.val).length = 8 := by
    rw [List.length_zip, now.property, before.property]
    rfl
  have hzero : Is (zero : Binary64) (0 : ℕ) := by
    rw [Nat.cast_zero]
    exact is_zero
  have := cpuDeltas_is (n := 0) _ (by omega) 0 hzero hzero (le_refl 0) (by simp) h
  simpa only [Nat.cast_zero, zero_add] using this

/-- The published usage of a CPU is a percentage unless its busy part is rounded over the whole. -/
theorem percentage_usage (now before : CpuTimes) :
    Decode.percentage
        ((some ((cpuUsage (D := Binary64) now before).getD zero)).filter Double.isFinite) = true ↔
      ¬ BusyOver now before := by
  cases h : cpuDeltas (D := Binary64) 0 (now.val.zip before.val) zero zero with
  | none =>
    have hover : ¬ BusyOver now before := by
      rintro ⟨total, idle, heq, -⟩
      cases h.symm.trans heq
    rw [cpuUsage, h, Option.bind_none, Option.getD_none, percentage_is is_zero]
    exact iff_of_true (by norm_num) hover
  | some sums =>
    obtain ⟨total, idle⟩ := sums
    obtain ⟨t, s, ht, hs, hle, hlarge, -⟩ := cpuDeltas_zero h
    have hover : BusyOver now before ↔
        nearest (t - s : ℚ) = t ∧ Overshoots (significand (t : ℚ)) := by
      constructor
      · rintro ⟨total', idle', heq, hsame⟩
        obtain ⟨rfl, rfl⟩ := Prod.mk.inj (Option.some.inj (h.symm.trans heq))
        rwa [ht.val, hs.val] at hsame
      · intro hsame
        exact ⟨total, idle, h, by rwa [ht.val, hs.val]⟩
    rw [hover, cpuUsage, h, Option.bind_some]
    dsimp only
    rcases Nat.eq_zero_or_pos t with rfl | hpos
    · have hzero : Arithmetic.le total zero = true := (ht.le is_zero).mpr (by simp)
      rw [if_pos hzero, Option.getD_none, percentage_is is_zero]
      refine iff_of_true (by norm_num) fun h0 => absurd h0.2 ?_
      exact not_overshoots_small (n := 0) (by norm_num)
    · have hone : (1 : ℚ) ≤ t := by exact_mod_cast hpos
      have hbusy : (0 : ℚ) ≤ (t - s : ℕ) := Nat.cast_nonneg _
      have hcast : ((t - s : ℕ) : ℚ) = t - s := Nat.cast_sub hle
      have hpart : ((t - s : ℕ) : ℚ) ≤ 2 ^ (72 : ℤ) :=
        le_trans (by exact_mod_cast Nat.sub_le t s) hlarge
      have hnear := nearest_le_two_zpow hbusy (by norm_num) hpart
      have hnear0 := nearest_nonneg hbusy
      have hprod : 100 * nearest (t - s : ℕ) ≤ 2 ^ (79 : ℤ) := by
        norm_num at hnear ⊢
        linarith
      have hrounded := nearest_le_two_zpow (by positivity) (by norm_num) hprod
      have hquot : nearest (100 * nearest (t - s : ℕ)) / t ≤ 2 ^ (79 : ℤ) :=
        (div_le_self (nearest_nonneg (by positivity)) hone).trans hrounded
      have hsub := ht.sub hs (by exact_mod_cast hle)
        (hcast ▸ Binary64.nearest_lt_overflow hbusy (by norm_num) hpart (by norm_num))
      rw [← hcast] at hsub
      have hmul := is_hundred.mul hsub
        (Binary64.nearest_lt_overflow (by positivity) (by norm_num) hprod (by norm_num))
      have hdiv := hmul.div ht (by linarith) (Binary64.nearest_lt_overflow
        (div_nonneg (nearest_nonneg (by positivity)) (by linarith)) (by norm_num) hquot (by norm_num))
      have hzero : Arithmetic.le total zero = false := by
        rw [← Bool.not_eq_true]
        exact fun hle0 => absurd ((ht.le is_zero).mp hle0) (by linarith)
      rw [hzero, if_neg (by simp), Option.getD_some, ← hcast]
      refine (percentage_is hdiv).trans (not_congr ?_)
      have hover := quotient_over (q := (t - s : ℕ)) (r := t)
        ((Nat.eq_zero_or_pos (t - s)).imp (fun h0 => by rw [h0, Nat.cast_zero]) normal_nat)
        (normal_nat hpos) (by exact_mod_cast Nat.sub_le t s)
      rwa [ht.nearest] at hover

/-- Less than 2^46 ticks apart, no usage is rounded over 100. -/
theorem not_busyOver {now before : CpuTimes} (hsmall : spent (now.val.zip before.val) < 2 ^ 46) :
    ¬ BusyOver now before := by
  rintro ⟨total, idle, h, -, hover⟩
  obtain ⟨t, s, ht, -, -, -, -, hexact⟩ := cpuDeltas_zero h
  have hspent := hexact (hsmall.le.trans (by norm_num))
  rw [ht.val] at hover
  exact not_overshoots_small (by rw [← hspent] at hsmall; exact_mod_cast hsmall) hover

end WebHtop.Server.Collectors
