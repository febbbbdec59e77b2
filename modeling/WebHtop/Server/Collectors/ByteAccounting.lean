import WebHtop.Lib.Percentage
import WebHtop.Common.Validation
import WebHtop.Server.Collectors.MetricsCollector

/-!
# Byte accounting

The byte rules of `Decode` on the sections that `Memory` and `Filesystem` publish, in binary64
arithmetic. `Memory` refuses what would break them; `Filesystem` does not look at a product
that wraps or at more available than total blocks. A percentage goes over 100 only where the
used and the total bytes round to one double.
-/

namespace WebHtop.Server.Collectors

open WebHtop.Lib WebHtop.Common

/-! ## Percentages -/

section

open Binary64 (Is)

theorem is_ofUInt64 (u : UInt64) : Is (Double.ofUInt64 u) (nearest u.toNat) :=
  Binary64.is_ofNat u.toNat_lt.le

theorem is_zero : Is (zero : Binary64) 0 := by
  have := Binary64.is_natCast (Nat.zero_le (2 ^ 53))
  rwa [Nat.cast_zero] at this

theorem is_hundred : Is (Double.ofInt64 100 : Binary64) 100 :=
  Binary64.is_natCast (n := 100) (by norm_num)

theorem nearest_toNat_le (u : UInt64) : nearest u.toNat ≤ 2 ^ (64 : ℤ) := by
  have hu : ((u.toNat : ℕ) : ℚ) ≤ ((2 ^ 64 : ℕ) : ℚ) := by exact_mod_cast u.toNat_lt.le
  exact nearest_le_two_zpow (Nat.cast_nonneg _) (by norm_num) (hu.trans (by norm_num))

theorem one_le_nearest {n : ℕ} (hn : 0 < n) : 1 ≤ nearest n := by
  have h1 : (2 : ℚ) ^ (0 : ℤ) ≤ n := by
    rw [zpow_zero]
    exact_mod_cast hn
  have := two_zpow_le_nearest (by norm_num) h1
  rwa [zpow_zero] at this

/-- `100.0 * part / whole` as a number. -/
theorem percent_is (part : UInt64) {whole : UInt64} (hw : 0 < whole.toNat) :
    Is (MetricsCollector.percent part whole)
      (nearest (nearest (100 * nearest part.toNat) / nearest whole.toNat)) := by
  have hpart0 : 0 ≤ nearest (part.toNat : ℚ) := nearest_nonneg (Nat.cast_nonneg _)
  have hprod0 : 0 ≤ 100 * nearest (part.toNat : ℚ) := by positivity
  have hprod : 100 * nearest (part.toNat : ℚ) ≤ 2 ^ (71 : ℤ) := by
    have := nearest_toNat_le part
    norm_num at this ⊢
    linarith
  have hrounded := nearest_le_two_zpow hprod0 (by norm_num) hprod
  have hone := one_le_nearest hw
  have hquot0 : 0 ≤ nearest (100 * nearest (part.toNat : ℚ)) / nearest whole.toNat :=
    div_nonneg (nearest_nonneg hprod0) (by linarith)
  have hquot : nearest (100 * nearest (part.toNat : ℚ)) / nearest whole.toNat ≤ 2 ^ (71 : ℤ) :=
    (div_le_self (nearest_nonneg hprod0) hone).trans hrounded
  have hmul := is_hundred.mul (is_ofUInt64 part)
    (Binary64.nearest_lt_overflow hprod0 (by norm_num) hprod (by norm_num))
  exact hmul.div (is_ofUInt64 whole) (by linarith)
    (Binary64.nearest_lt_overflow hquot0 (by norm_num) hquot (by norm_num))

/-- What the check on a percentage says of a number that is not negative. -/
theorem percentage_is {d : Binary64} {q : ℚ} (h : Is d q) :
    Decode.percentage ((some d).filter Double.isFinite) = true ↔ ¬ 100 < q := by
  have hfinite : Double.isFinite d = true := h.finite
  have hneg : Decode.negative d = false := by
    rw [← Bool.not_eq_true]
    exact fun hlt => absurd ((h.lt is_zero).mp hlt) (not_lt.mpr h.nonneg)
  have habove : Decode.above100 d = true ↔ 100 < q := is_hundred.lt h
  simp only [Option.filter, hfinite, ↓reduceIte, Decode.percentage, Option.any_some, hneg,
    Bool.not_false, Bool.true_and, Bool.not_eq_eq_eq_not, Bool.not_true, ← habove,
    Bool.not_eq_true]

end

/-- The used bytes and the total are one double, and it is one whose percentage of itself is
rounded over 100. -/
def Overfull (used total : ℕ) : Prop :=
  nearest used = nearest total ∧ Overshoots (significand (nearest total))

theorem not_overfull_zero : ¬ Overfull 0 0 := by
  intro h
  have : significand (nearest ((0 : ℕ) : ℚ)) = 0 := by
    simp [significand, nearest_zero]
  exact absurd h.2 (by rw [this]; decide)

theorem percentage_percent {used total : UInt64} (ht : 0 < total.toNat)
    (hle : used.toNat ≤ total.toNat) :
    Decode.percentage
        ((some (MetricsCollector.percent (D := Binary64) used total)).filter Double.isFinite) = true ↔
      ¬ Overfull used.toNat total.toNat := by
  rw [percentage_is (percent_is used ht), percentage_over ht hle, Overfull]

/-- The same where a total of zero leaves the percentage zero. -/
theorem percentage_guarded {used total : UInt64} (hle : used.toNat ≤ total.toNat) :
    Decode.percentage ((some (if total ≠ 0 then MetricsCollector.percent used total
        else (zero : Binary64))).filter Double.isFinite) = true ↔
      ¬ Overfull used.toNat total.toNat := by
  by_cases ht : total = 0
  · subst ht
    rw [UInt64.toNat_zero, Nat.le_zero] at hle
    rw [if_neg (not_not.mpr rfl), percentage_is is_zero, hle, UInt64.toNat_zero]
    exact iff_of_true (by norm_num) not_overfull_zero
  · have hpos : 0 < total.toNat :=
      Nat.pos_of_ne_zero fun h0 => ht (UInt64.toNat_inj.mp h0)
    rw [if_pos ht, percentage_percent hpos hle]

/-! ## The rules of Decode -/

/-- What the check on a section asks of its numbers. -/
def Consistent (total available used : UInt64) (percent : Binary64) : Prop :=
  available ≤ total ∧ used ≤ total ∧
    Decode.percentage ((some percent).filter Double.isFinite) = true

theorem checkAccounting_iff {v : JSONValue Binary64} {key : Bytes}
    {total available used : UInt64} {percent : Binary64}
    (ht : Access.uint (Decode.deref v key) (lit "total_bytes") = some total)
    (ha : Access.uint (Decode.deref v key) (lit "available_bytes") = some available)
    (hu : Access.uint (Decode.deref v key) (lit "used_bytes") = some used)
    (hp : Access.number (Decode.deref v key) (lit "used_percent") =
      (some percent).filter Double.isFinite) :
    Decode.checkAccounting v key = .ok () ↔ Consistent total available used percent := by
  rw [Decode.checkAccounting, Decode.require_ok]
  simp only [ht, ha, hu, hp, Option.any_some, decide_eq_true_eq, Consistent]

theorem checkMemory_iff (s : SystemSnapshot Binary64) :
    Decode.checkAccounting (encodeTree s) (lit "memory") = .ok () ↔
      Consistent s.memory.totalBytes s.memory.availableBytes s.memory.usedBytes
        s.memory.usedPercent :=
  checkAccounting_iff rfl rfl rfl rfl

theorem checkDisk_iff (s : SystemSnapshot Binary64) :
    Decode.checkAccounting (encodeTree s) (lit "disk") = .ok () ↔
      Consistent s.disk.totalBytes s.disk.availableBytes s.disk.usedBytes s.disk.usedPercent :=
  checkAccounting_iff rfl rfl rfl rfl

/-- A section without numbers passes. -/
theorem consistent_zero : Consistent 0 0 0 zero := by
  refine ⟨UInt64.le_refl _, UInt64.le_refl _, ?_⟩
  rw [percentage_is is_zero]
  norm_num

/-- The collector of that name reports that it has nothing. -/
def Unavailable (s : SystemSnapshot Binary64) (name : Bytes) : Prop :=
  ∃ status ∈ s.telemetry.collectors, status.name = name ∧ status.state = lit "unavailable"

/-! ## Memory -/

/-- The memory section of a snapshot meets the byte rules: it passes the check, and it is
unavailable or its numbers are the exact products of those in meminfo. -/
def MemoryAccounted (g : Generation) (s : SystemSnapshot Binary64) : Prop :=
  Decode.checkAccounting (encodeTree s) (lit "memory") = .ok () ∧
    (Unavailable s (lit "memory") ∧ s.memory = default ∨
      ∃ text total available, g.source.proc (lit "meminfo") = .ok text ∧
        (keyValues text).get (lit "MemTotal") = some total ∧
        (keyValues text).get (lit "MemAvailable") = some available ∧
        s.memory.totalBytes.toNat = total.toNat * 1024 ∧
        s.memory.availableBytes.toNat = available.toNat * 1024 ∧
        s.memory.usedBytes.toNat + s.memory.availableBytes.toNat = s.memory.totalBytes.toNat)

/-- The numbers in meminfo, where they are accepted, do not round over 100 percent. -/
def MemoryRounds (g : Generation) : Prop :=
  ∀ text total available, g.source.proc (lit "meminfo") = .ok text →
    MetricsCollector.memoryValues text = some (total, available) →
      ¬ Overfull ((total.toNat - available.toNat) * 1024) (total.toNat * 1024)

theorem memoryValues_eq {text : Bytes} {total available : UInt64}
    (h : MetricsCollector.memoryValues text = some (total, available)) :
    (keyValues text).get (lit "MemTotal") = some total ∧
      (keyValues text).get (lit "MemAvailable") = some available ∧
      0 < total.toNat ∧ available.toNat ≤ total.toNat ∧ total.toNat * 1024 < 2 ^ 64 := by
  simp only [MetricsCollector.memoryValues, Option.bind_eq_some_iff] at h
  obtain ⟨t, ht, a, ha, h⟩ := h
  split at h
  · cases h
  · rename_i hguard
    obtain ⟨rfl, rfl⟩ := Prod.mk.inj (Option.some.inj h)
    rw [not_or, not_or] at hguard
    obtain ⟨hzero, havailable, hlarge⟩ := hguard
    have hne : t.toNat ≠ 0 := fun hn => hzero (UInt64.toNat_inj.mp hn)
    rw [gt_iff_lt, UInt64.lt_iff_toNat_lt, not_lt] at havailable
    replace hlarge : t.toNat ≤ 18014398509481983 := not_lt.mp hlarge
    exact ⟨ht, ha, by omega, havailable, by omega⟩

/-- The section after an accepted file: the products fit and are exact. -/
theorem memory_products {total available : UInt64} (hle : available.toNat ≤ total.toNat)
    (hfit : total.toNat * 1024 < 2 ^ 64) :
    (total * 1024).toNat = total.toNat * 1024 ∧
      (available * 1024).toNat = available.toNat * 1024 ∧
      (total * 1024 - available * 1024).toNat = (total.toNat - available.toNat) * 1024 := by
  have hfit' : available.toNat * 1024 < 2 ^ 64 :=
    (Nat.mul_le_mul_right _ hle).trans_lt hfit
  have hsub : total.toNat * 1024 - available.toNat * 1024 =
      (total.toNat - available.toNat) * 1024 := (Nat.sub_mul ..).symm
  have h1024 : (1024 : UInt64).toNat = 1024 := by decide
  have ht : (total * 1024).toNat = total.toNat * 1024 := by
    rw [UInt64.toNat_mul, h1024, Nat.mod_eq_of_lt hfit]
  have ha : (available * 1024).toNat = available.toNat * 1024 := by
    rw [UInt64.toNat_mul, h1024, Nat.mod_eq_of_lt hfit']
  have hle1024 : available * 1024 ≤ total * 1024 := by
    rw [UInt64.le_iff_toNat_le, ht, ha]
    exact Nat.mul_le_mul_right _ hle
  refine ⟨ht, ha, ?_⟩
  rw [UInt64.toNat_sub_of_le _ _ hle1024, ht, ha, hsub]

/-- The status of a section that failed is among the collectors. -/
theorem unavailable_of_error {α : Type} {g : Generation} {s : SystemSnapshot Binary64}
    {name error : Bytes} {o : Outcome α} (h : o.error = some error)
    (hmem : MetricsCollector.status g name o ∈ s.telemetry.collectors) : Unavailable s name := by
  refine ⟨_, hmem, ?_⟩
  rw [MetricsCollector.status, h]
  exact ⟨rfl, rfl⟩

variable (c : MetricsCollector Binary64) (g : Generation)

theorem collect_memory : (c.collect g).1.memory = (MetricsCollector.memory g).value := rfl

theorem status_memory : MetricsCollector.status g (lit "memory")
    (MetricsCollector.memory g : Outcome (MemoryMetrics Binary64)) ∈
      (c.collect g).1.telemetry.collectors :=
  List.mem_append_left _ (List.mem_cons_of_mem _ (List.mem_cons_self ..))

theorem memoryAccounted_of_error {error : Bytes}
    (hm : MetricsCollector.memory g = { value := (default : MemoryMetrics Binary64), error }) :
    MemoryAccounted g (c.collect g).1 := by
  have hzero : (c.collect g).1.memory = default := congrArg Outcome.value hm
  rw [MemoryAccounted, checkMemory_iff, hzero]
  exact ⟨consistent_zero,
    .inl ⟨unavailable_of_error (congrArg Outcome.error hm) (status_memory c g), rfl⟩⟩

theorem memoryAccounted_of_values {text : Bytes} {total available : UInt64}
    (hfile : g.source.proc (lit "meminfo") = .ok text)
    (hvalues : MetricsCollector.memoryValues text = some (total, available)) :
    MemoryAccounted g (c.collect g).1 ↔
      ¬ Overfull ((total.toNat - available.toNat) * 1024) (total.toNat * 1024) := by
  obtain ⟨htotal, havailable, hpos, hle, hfit⟩ := memoryValues_eq hvalues
  obtain ⟨ht, ha, hu⟩ := memory_products hle hfit
  have hm : (c.collect g).1.memory =
      { timestamp := g.timestamp
        totalBytes := total * 1024
        availableBytes := available * 1024
        usedBytes := total * 1024 - available * 1024
        usedPercent :=
          MetricsCollector.percent (total * 1024 - available * 1024) (total * 1024) } := by
    rw [collect_memory, MetricsCollector.memory, hfile]
    simp only [hvalues]
  have hused : (total * 1024 - available * 1024).toNat ≤ (total * 1024).toNat := by
    rw [hu, ht]
    exact Nat.mul_le_mul_right _ (Nat.sub_le ..)
  have hpercent := percentage_percent (by rw [ht]; omega) hused
  rw [hu, ht] at hpercent
  rw [MemoryAccounted, checkMemory_iff, hm, ← hpercent]
  constructor
  · exact fun h => h.1.2.2
  · refine fun h => ⟨⟨?_, UInt64.le_iff_toNat_le.mpr hused, h⟩,
      .inr ⟨text, total, available, hfile, htotal, havailable, ht, ha, ?_⟩⟩
    · rw [UInt64.le_iff_toNat_le, ha, ht]
      exact Nat.mul_le_mul_right _ hle
    · rw [hu, ha, ht, ← Nat.add_mul, Nat.sub_add_cancel hle]

theorem memoryAccounted_iff : MemoryAccounted g (c.collect g).1 ↔ MemoryRounds g := by
  cases hfile : g.source.proc (lit "meminfo") with
  | error e =>
    have hm : MetricsCollector.memory g =
        { value := (default : MemoryMetrics Binary64), error := g.source.message e } := by
      rw [MetricsCollector.memory, hfile]
    refine iff_of_true (memoryAccounted_of_error c g hm) fun text total available htext => ?_
    rw [hfile] at htext
    cases htext
  | ok text =>
    cases hvalues : MetricsCollector.memoryValues text with
    | none =>
      have hm : MetricsCollector.memory g =
          { value := (default : MemoryMetrics Binary64)
            error := lit "MemTotal/MemAvailable missing or invalid" } := by
        rw [MetricsCollector.memory, hfile]
        simp only [hvalues]
      refine iff_of_true (memoryAccounted_of_error c g hm) fun text' total available htext hv => ?_
      rw [hfile] at htext
      obtain rfl := Except.ok.inj htext
      rw [hvalues] at hv
      cases hv
    | some values =>
      obtain ⟨total, available⟩ := values
      rw [memoryAccounted_of_values c g hfile hvalues]
      constructor
      · intro h text' total' available' htext hv
        rw [hfile] at htext
        obtain rfl := Except.ok.inj htext
        rw [hvalues] at hv
        obtain ⟨rfl, rfl⟩ := Prod.mk.inj (Option.some.inj hv)
        exact h
      · exact fun h => h text total available hfile hvalues

/-! ## File system -/

/-- The same for the disk section and the fields of statvfs. -/
def DiskAccounted (g : Generation) (s : SystemSnapshot Binary64) : Prop :=
  Decode.checkAccounting (encodeTree s) (lit "disk") = .ok () ∧
    (Unavailable s (lit "filesystem") ∧ s.disk = default ∨
      ∃ st, g.source.filesystem = .ok st ∧
        s.disk.totalBytes.toNat = st.blocks.toNat * st.frsize.toNat ∧
        s.disk.availableBytes.toNat = st.bavail.toNat * st.frsize.toNat ∧
        s.disk.usedBytes.toNat = (st.blocks.toNat - st.bfree.toNat) * st.frsize.toNat)

/-- What Filesystem does not look at: the size fits 64 bits, there are not more available
blocks than blocks, and the percentage does not round over 100. -/
def DiskFits (g : Generation) : Prop :=
  ∀ st, g.source.filesystem = .ok st →
    st.blocks.toNat * st.frsize.toNat < 2 ^ 64 ∧ (st.bavail ≤ st.blocks ∨ st.frsize = 0) ∧
      ¬ Overfull ((st.blocks.toNat - st.bfree.toNat) * st.frsize.toNat)
        (st.blocks.toNat * st.frsize.toNat)

theorem collect_disk : (c.collect g).1.disk = (MetricsCollector.filesystem g).value := rfl

theorem status_filesystem : MetricsCollector.status g (lit "filesystem")
    (MetricsCollector.filesystem g : Outcome (DiskMetrics Binary64)) ∈
      (c.collect g).1.telemetry.collectors := by
  refine List.mem_append_left _ ?_
  iterate 5 apply List.mem_cons_of_mem
  exact List.mem_cons_self ..

/-- No other status has that name. -/
theorem filesystem_status {status : SampleStatus}
    (h : status ∈ (c.collect g).1.telemetry.collectors) (hname : status.name = lit "filesystem") :
    status = MetricsCollector.status g (lit "filesystem")
      (MetricsCollector.filesystem g : Outcome (DiskMetrics Binary64)) := by
  have hnames : ∀ {α : Type} (name : Bytes) (o : Outcome α),
      (MetricsCollector.status g name o).name = name := by
    intro α name o
    unfold MetricsCollector.status
    cases o.error <;> rfl
  rcases List.mem_append.mp h with h | h
  · simp only [List.mem_cons, List.not_mem_nil, or_false] at h
    rcases h with rfl | rfl | rfl | rfl | rfl | rfl | rfl | rfl
    all_goals first | rfl | (rw [hnames] at hname; exact absurd hname (by decide))
  · rw [Option.mem_toList] at h
    obtain ⟨o, -, rfl⟩ := Option.map_eq_some_iff.mp h
    rw [hnames] at hname
    exact absurd hname (by decide)

/-- The section after a call that succeeded, where the size does not wrap. -/
theorem disk_products {st : Statvfs} (hfit : st.blocks.toNat * st.frsize.toNat < 2 ^ 64) :
    (st.blocks * st.frsize).toNat = st.blocks.toNat * st.frsize.toNat ∧
      ((if st.blocks ≥ st.bfree then st.blocks - st.bfree else 0) * st.frsize).toNat =
        (st.blocks.toNat - st.bfree.toNat) * st.frsize.toNat := by
  have hused : (if st.blocks ≥ st.bfree then st.blocks - st.bfree else 0).toNat =
      st.blocks.toNat - st.bfree.toNat := by
    split
    · rename_i hle
      exact UInt64.toNat_sub_of_le _ _ hle
    · rename_i hlt
      rw [ge_iff_le, UInt64.le_iff_toNat_le] at hlt
      rw [UInt64.toNat_zero]
      omega
  rw [UInt64.toNat_mul, UInt64.toNat_mul, hused, Nat.mod_eq_of_lt hfit, Nat.mod_eq_of_lt]
  · exact ⟨rfl, rfl⟩
  · exact (Nat.mul_le_mul_right _ (Nat.sub_le ..)).trans_lt hfit

theorem diskAccounted_of_statvfs {st : Statvfs} (hst : g.source.filesystem = .ok st) :
    DiskAccounted g (c.collect g).1 ↔
      st.blocks.toNat * st.frsize.toNat < 2 ^ 64 ∧ (st.bavail ≤ st.blocks ∨ st.frsize = 0) ∧
        ¬ Overfull ((st.blocks.toNat - st.bfree.toNat) * st.frsize.toNat)
          (st.blocks.toNat * st.frsize.toNat) := by
  have hf : (MetricsCollector.filesystem g : Outcome (DiskMetrics Binary64)) =
      { value := (c.collect g).1.disk } := by
    rw [collect_disk, MetricsCollector.filesystem, hst]
  have hnot : ¬ (Unavailable (c.collect g).1 (lit "filesystem") ∧ (c.collect g).1.disk = default) := by
    rintro ⟨⟨status, hmem, hname, hstate⟩, -⟩
    rw [filesystem_status c g hmem hname, hf] at hstate
    exact absurd (show lit "ok" = lit "unavailable" from hstate) (by decide)
  have hexists : ∀ P : Statvfs → Prop, (∃ st, g.source.filesystem = .ok st ∧ P st) ↔ P st := by
    intro P
    rw [hst]
    constructor
    · rintro ⟨st', heq, hp⟩
      exact Except.ok.inj heq ▸ hp
    · exact fun hp => ⟨st, rfl, hp⟩
  rw [DiskAccounted, checkDisk_iff, hexists]
  simp only [hnot, false_or]
  have hd : (c.collect g).1.disk = (MetricsCollector.filesystem g).value := rfl
  rw [hd, MetricsCollector.filesystem, hst]
  constructor
  · rintro ⟨⟨hle, hused, hpercent⟩, ht, ha, hu⟩
    have hfit : st.blocks.toNat * st.frsize.toNat < 2 ^ 64 := ht ▸ UInt64.toNat_lt _
    rw [UInt64.le_iff_toNat_le] at hle hused
    dsimp only at hle hused ht ha hu
    rw [ha, ht] at hle
    refine ⟨hfit, ?_, ?_⟩
    · rcases Nat.eq_zero_or_pos st.frsize.toNat with h0 | hpos
      · exact .inr (UInt64.toNat_inj.mp h0)
      · exact .inl (UInt64.le_iff_toNat_le.mpr (Nat.le_of_mul_le_mul_right hle hpos))
    · rw [← hu, ← ht]
      exact (percentage_guarded hused).mp hpercent
  · rintro ⟨hfit, havailable, hfull⟩
    obtain ⟨ht, hu⟩ := disk_products hfit
    have hle : st.bavail.toNat * st.frsize.toNat ≤ st.blocks.toNat * st.frsize.toNat := by
      rcases havailable with hle | h0
      · exact Nat.mul_le_mul_right _ (UInt64.le_iff_toNat_le.mp hle)
      · simp [h0]
    have ha : (st.bavail * st.frsize).toNat = st.bavail.toNat * st.frsize.toNat := by
      rw [UInt64.toNat_mul, Nat.mod_eq_of_lt (hle.trans_lt hfit)]
    have hused : ((if st.blocks ≥ st.bfree then st.blocks - st.bfree else 0) * st.frsize).toNat ≤
        (st.blocks * st.frsize).toNat := by
      rw [hu, ht]
      exact Nat.mul_le_mul_right _ (Nat.sub_le ..)
    refine ⟨⟨?_, UInt64.le_iff_toNat_le.mpr hused, ?_⟩, ht, ha, hu⟩
    · rw [UInt64.le_iff_toNat_le, ha, ht]
      exact hle
    · refine (percentage_guarded hused).mpr ?_
      rwa [hu, ht]

theorem diskAccounted_iff : DiskAccounted g (c.collect g).1 ↔ DiskFits g := by
  cases hst : g.source.filesystem with
  | error e =>
    have hf : MetricsCollector.filesystem g =
        { value := (default : DiskMetrics Binary64), error := g.source.message e } := by
      rw [MetricsCollector.filesystem, hst]
    have hzero : (c.collect g).1.disk = default := congrArg Outcome.value hf
    refine iff_of_true ?_ fun st h => ?_
    · rw [DiskAccounted, checkDisk_iff, hzero]
      exact ⟨consistent_zero,
        .inl ⟨unavailable_of_error (congrArg Outcome.error hf) (status_filesystem c g), rfl⟩⟩
    · rw [hst] at h
      cases h
  | ok st =>
    rw [diskAccounted_of_statvfs c g hst]
    constructor
    · intro h st' hst'
      rw [hst] at hst'
      exact Except.ok.inj hst' ▸ h
    · exact fun h => h st hst

/-- Both sections of a snapshot meet the byte rules if and only if meminfo does not round over
100 percent and statvfs fits. -/
theorem bytes_accounted : MemoryAccounted g (c.collect g).1 ∧ DiskAccounted g (c.collect g).1 ↔
    MemoryRounds g ∧ DiskFits g := by
  rw [memoryAccounted_iff, diskAccounted_iff]

/-- A file system with one block, none of them free and two of them available. -/
def overcommitted : Generation :=
  { source :=
      { proc := fun _ => .error 2
        sys := fun _ => .error 2
        cgroup := fun _ => .error 2
        pids := .ok ⟨[], by decide⟩
        filesystem := .ok { blocks := 1, bfree := 0, bavail := 2, frsize := 1 }
        cgroupIdentity := []
        message := fun _ => [] }
    now := epoch }

theorem ticks_positive : 0 < (100 : Int64).toInt := by decide

theorem page_positive : 0 < (4096 : Int64).toInt := by decide

/-- A collector that has not collected. -/
def fresh : MetricsCollector Binary64 :=
  { config := {}, clockTicks := 100, pageSize := 4096, ticks_pos := ticks_positive
    page_pos := page_positive, bootId := [], hostname := [], seconds := zero }

theorem bytes_not_accounted : ¬ (MemoryAccounted overcommitted (fresh.collect overcommitted).1 ∧
    DiskAccounted overcommitted (fresh.collect overcommitted).1) := by
  rintro ⟨-, h⟩
  rw [diskAccounted_iff] at h
  obtain ⟨_, hle | hzero, _⟩ := h _ rfl
  · exact absurd hle (by decide)
  · exact absurd hzero (by decide)

end WebHtop.Server.Collectors
