import WebHtop.Common.Models.RoundTrip
import WebHtop.Server.Collectors.CpuRounding
import WebHtop.Server.Collectors.LinuxSource
import WebHtop.Server.Collectors.Rates
import WebHtop.Server.SamplingWorker

/-!
# Generations that clients accept

What Collect publishes, held against every check of Decode in binary64 arithmetic. The rates pass
whatever the counters are; the other sections pass under conditions on the files, which the checks
of the collector do not cover.
-/

namespace WebHtop.Server.Collectors.MetricsCollector

open WebHtop.Lib WebHtop.Common
open Binary64 (Is)

/-! ## Rates that are finite -/

/-- Every rate is a number that can be scaled. -/
def Small (rate : Option Binary64) : Prop := ∀ d, rate = some d → ∃ x, Is d x ∧ x ≤ 2 ^ (94 : ℤ)

theorem Small.finite {rate : Option Binary64} (h : Small rate) : RateFinite rate := by
  intro d hd
  obtain ⟨x, hx, -⟩ := h d hd
  exact hx.finite

theorem small_none : Small none := fun _ h => nomatch h

theorem small_counterRate {seconds : Binary64} (ht : TimeBase seconds) (now previous : UInt64) :
    Small (counterRate now previous seconds) := fun _ h => counterRate_is ht h

theorem small_bind {α : Type} {o : Option α} {f : α → Option Binary64} (h : ∀ a, Small (f a)) :
    Small (o.bind f) := by
  intro d hd
  obtain ⟨a, -, ha⟩ := Option.bind_eq_some_iff.mp hd
  exact h a d ha

/-- A number that has been scaled up. -/
theorem is_scaled {d : Binary64} {x : ℚ} (hd : Is d x) (hx : x ≤ 2 ^ (94 : ℤ)) {n : Int64} {k : ℕ}
    (hn : n.toInt = k) (hk : k ≤ 2 ^ 53) : ∃ y, Is (Arithmetic.mul d (Arithmetic.ofInt n)) y := by
  have hlit : Is (Arithmetic.ofInt n : Binary64) k := by
    have := Binary64.is_natCast hk
    rwa [← hn] at this
  have hx0 := hd.nonneg
  have hkq : (k : ℚ) ≤ 2 ^ (53 : ℤ) := by exact_mod_cast hk
  have hprod : x * k ≤ 2 ^ (147 : ℤ) := by
    calc x * k ≤ 2 ^ (94 : ℤ) * 2 ^ (53 : ℤ) :=
          mul_le_mul hx hkq (Nat.cast_nonneg _) (two_zpow_pos _).le
      _ = 2 ^ (147 : ℤ) := by norm_num
  exact ⟨_, hd.mul hlit (Binary64.nearest_lt_overflow (by positivity) (by norm_num) hprod (by norm_num))⟩

/-- A number that has been divided by a literal. -/
theorem is_quotient {d : Binary64} {x : ℚ} (hd : Is d x) (hx : x ≤ 2 ^ (94 : ℤ)) {n : Int64} {k : ℕ}
    (hn : n.toInt = k) (hk : k ≤ 2 ^ 53) (hpos : 0 < k) :
    ∃ y, Is (Arithmetic.div d (Arithmetic.ofInt n)) y ∧ y ≤ 2 ^ (94 : ℤ) := by
  have hlit : Is (Arithmetic.ofInt n : Binary64) k := by
    have := Binary64.is_natCast hk
    rwa [← hn] at this
  have hone : (1 : ℚ) ≤ k := by exact_mod_cast hpos
  have hquot0 : 0 ≤ x / k := div_nonneg hd.nonneg (by linarith)
  have hquot : x / k ≤ 2 ^ (94 : ℤ) := (div_le_self hd.nonneg hone).trans hx
  exact ⟨_, hd.div hlit (by linarith)
    (Binary64.nearest_lt_overflow hquot0 (by norm_num) hquot (by norm_num)),
    nearest_le_two_zpow hquot0 (by norm_num) hquot⟩

theorem interface_finite {c : MetricsCollector Binary64} (ht : TimeBase c.seconds)
    (r : InterfaceRow) : (c.interfaceMetrics r).Finite :=
  ⟨(small_bind fun _ => small_counterRate ht _ _).finite,
    (small_bind fun _ => small_counterRate ht _ _).finite⟩

theorem disk_finite {c : MetricsCollector Binary64} (ht : TimeBase c.seconds) (r : DiskRow) :
    (c.diskMetrics r).Finite := by
  have hrate (counter : DiskCounters → UInt64) : Small ((c.disksPrevious.get r.key).bind fun old =>
      counterRate (counter r.counters) (counter old) c.seconds) :=
    small_bind fun _ => small_counterRate ht _ _
  have hbytes (counter : DiskCounters → UInt64) : RateFinite
      (((c.disksPrevious.get r.key).bind fun old =>
        counterRate (counter r.counters) (counter old) c.seconds).map fun sectors =>
          Arithmetic.mul sectors (Arithmetic.ofInt 512)) := by
    intro d hd
    obtain ⟨sectors, hsectors, rfl⟩ := Option.map_eq_some_iff.mp hd
    obtain ⟨x, hx, hlarge⟩ := hrate counter sectors hsectors
    obtain ⟨y, hy⟩ := is_scaled hx hlarge (n := 512) (k := 512) (by decide) (by norm_num)
    exact hy.finite
  refine ⟨hbytes _, hbytes _, ?_, ?_⟩
  · intro d hd
    obtain ⟨reads, hreads, hd⟩ := Option.bind_eq_some_iff.mp hd
    obtain ⟨writes, hwrites, rfl⟩ := Option.map_eq_some_iff.mp hd
    obtain ⟨x, hx, hx94⟩ := hrate _ reads hreads
    obtain ⟨y, hy, hy94⟩ := hrate _ writes hwrites
    have hsum : x + y ≤ 2 ^ (95 : ℤ) := by
      norm_num at hx94 hy94 ⊢
      linarith
    exact (hx.add hy (Binary64.nearest_lt_overflow (add_nonneg hx.nonneg hy.nonneg) (by norm_num)
      hsum (by norm_num))).finite
  · intro d hd
    obtain ⟨busy, hbusy, rfl⟩ := Option.map_eq_some_iff.mp hd
    obtain ⟨x, hx, hlarge⟩ := hrate _ busy hbusy
    obtain ⟨y, hy, -⟩ := is_quotient hx hlarge (n := 10) (k := 10) (by decide) (by norm_num) (by norm_num)
    unfold Arithmetic.min
    split
    · exact hy.finite
    · exact is_hundred.finite

theorem setPressure_finite (type token : Bytes) {m : PressureMetrics Binary64} (h : m.Finite) :
    (setPressure type m token).Finite := by
  unfold setPressure
  cases htoken : pressureToken (D := Binary64) token with
  | none => exact h
  | some e =>
    obtain ⟨key, n⟩ := e
    have hn : RateFinite (some n) := by
      intro d hd
      obtain rfl := Option.some.inj hd
      simp only [pressureToken, Option.bind_eq_bind, Option.bind_eq_some_iff] at htoken
      obtain ⟨_, -, n', -, hguard⟩ := htoken
      split at hguard
      · cases hguard
      · rename_i hgood
        obtain ⟨-, rfl⟩ := Prod.mk.inj (Option.some.inj hguard)
        by_contra hbad
        exact hgood (by simp [hbad])
    dsimp only
    split_ifs
    · exact ⟨hn, h.some60, h.some300, h.full10⟩
    · exact ⟨h.some10, hn, h.some300, h.full10⟩
    · exact ⟨h.some10, h.some60, hn, h.full10⟩
    · exact ⟨h.some10, h.some60, h.some300, hn⟩
    · exact h

theorem parsePressure_finite (resource text : Bytes) :
    (parsePressure resource text : PressureMetrics Binary64).Finite := by
  unfold parsePressure
  refine List.foldlRecOn _ _ ⟨small_none.finite, small_none.finite, small_none.finite,
    small_none.finite⟩ fun m hm line _ => ?_
  exact List.foldlRecOn _ _ hm fun m hm token _ => setPressure_finite _ token hm

theorem unsignedStored_lt {limit : ℕ} (h : 0 < limit) (text : Bytes) :
    Istream.unsignedStored limit text < limit := by
  unfold Istream.unsignedStored
  split
  · rename_i n rest hread
    simp only [Istream.unsigned] at hread
    split at hread
    · cases hread
    · rename_i hguard
      obtain ⟨rfl, -⟩ := Prod.mk.inj (Option.some.inj hread)
      split
      · exact Nat.mod_lt _ h
      · exact not_le.mp fun hle => hguard (.inr hle)
  · split <;> omega

theorem cpuMax_finite {text : Bytes} {unlimited : Bool} {quota : Option Binary64}
    (h : cpuMax text = some (unlimited, quota)) : RateFinite quota := by
  obtain ⟨⟨word, rest⟩, -, h⟩ := Option.bind_eq_some_iff.mp h
  dsimp only at h
  split at h
  · cases h
  · rename_i hperiod
    obtain ⟨-, rfl⟩ := Prod.mk.inj (Option.some.inj h)
    intro d hd
    obtain ⟨q, -, rfl⟩ := Option.map_eq_some_iff.mp hd
    have hlt := unsignedStored_lt (Nat.two_pow_pos 64) rest
    have hnat : (UInt64.ofNat (Istream.unsignedStored (2 ^ 64) rest)).toNat =
        Istream.unsignedStored (2 ^ 64) rest := UInt64.toNat_ofNat_of_lt' hlt
    have hone := one_le_nearest (n := (UInt64.ofNat (Istream.unsignedStored (2 ^ 64) rest)).toNat)
      (by omega)
    have hquot0 := nearest_nonneg (Nat.cast_nonneg (α := ℚ) q.toNat)
    exact ((is_ofUInt64 q).div (is_ofUInt64 _) (by linarith) (Binary64.nearest_lt_overflow
      (div_nonneg hquot0 (by linarith)) (by norm_num)
      ((div_le_self hquot0 hone).trans (nearest_toNat_le q)) (by norm_num))).finite

theorem cgroup_finite {c : MetricsCollector Binary64} (ht : TimeBase c.seconds) (g : Generation) :
    (c.cgroup g).1.value.Finite := by
  have hrate {seconds : Binary64} (ht : TimeBase seconds) (current previous : Option UInt64)
      {n : Int64} {k : ℕ} (hn : n.toInt = k) (hk : k ≤ 2 ^ 53) (hpos : 0 < k) :
      RateFinite ((current.bind fun current => previous.bind fun previous =>
        counterRate current previous seconds).map fun rate =>
          Arithmetic.div rate (Arithmetic.ofInt n)) := by
    intro d hd
    obtain ⟨rate, hrate, rfl⟩ := Option.map_eq_some_iff.mp hd
    obtain ⟨x, hx, hlarge⟩ :=
      small_bind (fun _ => small_bind fun _ => small_counterRate ht _ _) rate hrate
    obtain ⟨y, hy, -⟩ := is_quotient hx hlarge hn hk hpos
    exact hy.finite
  have hpressure : ∀ p ∈ resources.map fun r =>
      parsePressure (D := Binary64) r (textOr (g.source.cgroup (r ++ lit ".pressure"))), p.Finite := by
    intro p hp
    obtain ⟨r, -, rfl⟩ := List.mem_map.mp hp
    exact parsePressure_finite _ _
  have hquota : RateFinite (((g.source.cgroup (lit "cpu.max")).toOption.bind
      (cpuMax (D := Binary64))).bind Prod.snd) := by
    intro d hd
    obtain ⟨⟨unlimited, quota⟩, hmax, hd⟩ := Option.bind_eq_some_iff.mp hd
    obtain ⟨text, -, hmax⟩ := Option.bind_eq_some_iff.mp hmax
    exact cpuMax_finite hmax d hd
  unfold cgroup
  dsimp only
  split
  · exact ⟨small_none.finite, small_none.finite, small_none.finite, fun p hp => by cases hp⟩
  · refine ⟨hquota, ?_, ?_, hpressure⟩
    · split <;> exact hrate ht _ _ (n := 10000) (k := 10000) (by decide) (by norm_num) (by norm_num)
    · split <;> exact hrate ht _ _ (n := 1000) (k := 1000) (by decide) (by norm_num) (by norm_num)

/-- Whatever the counters are, the optional rates of a generation are finite. -/
theorem telemetry_finite (c : MetricsCollector Binary64) (g : Generation) :
    (c.collect g).1.telemetry.Finite := by
  have ht := timed_timeBase c g
  refine ⟨?_, ?_, ?_, ?_⟩
  · have hlist : (c.collect g).1.telemetry.interfaces =
        (interfaceRows g (c.timed g).config).map (c.timed g).interfaceMetrics :=
      (network_spec g (c.timed g)).1
    rw [hlist]
    intro m hm
    obtain ⟨r, -, rfl⟩ := List.mem_map.mp hm
    exact interface_finite ht r
  · have hlist : (c.collect g).1.telemetry.disks = (diskRows g).map (c.timed g).diskMetrics :=
      (disk_spec g (c.timed g)).1
    rw [hlist]
    intro m hm
    obtain ⟨r, -, rfl⟩ := List.mem_map.mp hm
    exact disk_finite ht r
  · intro m hm
    obtain ⟨r, -, rfl⟩ := List.mem_map.mp hm
    exact parsePressure_finite _ _
  · have hcgroup : (c.collect g).1.telemetry.cgroup =
        ((if (c.timed g).config.cgroupPath ≠ [] then some ((c.timed g).cgroup g) else none).map
          fun o : Outcome (CgroupMetrics Binary64) × CgroupBaseline => o.1.value).getD default := rfl
    rw [hcgroup]
    split
    · exact cgroup_finite ht g
    · exact ⟨small_none.finite, small_none.finite, small_none.finite, fun p hp => nomatch hp⟩

/-! ## Sums of rates -/

/-- A sum of rates over that many interfaces. -/
def Summed (d : Binary64) (n : ℕ) : Prop := ∃ x, Is d x ∧ x ≤ n * 2 ^ (94 : ℤ)

theorem Summed.mono {d : Binary64} {m n : ℕ} (h : Summed d m) (hle : m ≤ n) : Summed d n := by
  obtain ⟨x, hx, hlarge⟩ := h
  have hq : (m : ℚ) ≤ n := by exact_mod_cast hle
  exact ⟨x, hx, hlarge.trans (mul_le_mul_of_nonneg_right hq (two_zpow_pos _).le)⟩

theorem Summed.add {d rate : Binary64} {n : ℕ} (h : Summed d n) (hn : n < 2 ^ 53)
    (hrate : ∃ x, Is rate x ∧ x ≤ 2 ^ (94 : ℤ)) : Summed (Arithmetic.add d rate) (n + 1) := by
  obtain ⟨x, hx, hlarge⟩ := h
  obtain ⟨y, hy, hsmall⟩ := hrate
  have h0 : 0 ≤ x + y := add_nonneg hx.nonneg hy.nonneg
  have hsum : x + y ≤ ((n + 1 : ℕ) : ℤ) * 2 ^ (94 : ℤ) := by
    push_cast
    linarith
  -- The bound is itself a number, so rounding does not cross it.
  have hexact := nearest_exact (k := ((n + 1 : ℕ) : ℤ)) (e := 94) (by omega) (by omega) (by norm_num)
  have hround : nearest (x + y) ≤ ((n + 1 : ℕ) : ℤ) * 2 ^ (94 : ℤ) := hexact ▸ nearest_mono h0 hsum
  have hcount : (((n + 1 : ℕ) : ℤ) : ℚ) ≤ 2 ^ (53 : ℤ) := by exact_mod_cast hn
  have hlimit : x + y ≤ 2 ^ (147 : ℤ) := by
    calc x + y ≤ ((n + 1 : ℕ) : ℤ) * 2 ^ (94 : ℤ) := hsum
      _ ≤ 2 ^ (53 : ℤ) * 2 ^ (94 : ℤ) := mul_le_mul_of_nonneg_right hcount (two_zpow_pos _).le
      _ = 2 ^ (147 : ℤ) := by norm_num
  refine ⟨_, hx.add hy (Binary64.nearest_lt_overflow h0 (by norm_num) hlimit (by norm_num)), ?_⟩
  simpa using hround

/-- The rate of an interface as the section adds it up. -/
theorem kbps_is {seconds : Binary64} (ht : TimeBase seconds) {α : Type} (old : Option α)
    (now : UInt64) (before : α → UInt64) :
    ∃ x, Is (Arithmetic.div ((old.bind fun p => counterRate now (before p) seconds).getD zero)
      (Arithmetic.ofInt 1024)) x ∧ x ≤ 2 ^ (94 : ℤ) := by
  have hrate : ∃ x, Is ((old.bind fun p => counterRate now (before p) seconds).getD zero) x ∧
      x ≤ 2 ^ (94 : ℤ) := by
    cases h : old.bind fun p => counterRate now (before p) seconds with
    | none => exact ⟨0, is_zero, (two_zpow_pos _).le⟩
    | some rate => exact small_bind (fun _ => small_counterRate ht _ _) rate h
  obtain ⟨x, hx, hlarge⟩ := hrate
  exact is_quotient hx hlarge (n := 1024) (k := 1024) (by decide) (by norm_num) (by norm_num)

theorem networkLine_summed {c : MetricsCollector Binary64} (ht : TimeBase c.seconds) (g : Generation)
    (line : Bytes) {l : NetworkLoop Binary64} {n : ℕ} (hn : n < 2 ^ 53)
    (h : Summed l.network.rxKbps n ∧ Summed l.network.txKbps n) :
    Summed (networkLine g c l line).network.rxKbps (n + 1) ∧
      Summed (networkLine g c l line).network.txKbps (n + 1) := by
  unfold networkLine
  split
  · exact h.imp (fun h => h.mono (Nat.le_succ n)) fun h => h.mono (Nat.le_succ n)
  · exact h.imp (fun h => h.mono (Nat.le_succ n)) fun h => h.mono (Nat.le_succ n)
  · exact ⟨h.1.add hn (kbps_is ht _ _ _), h.2.add hn (kbps_is ht _ _ _)⟩

theorem foldl_summed {c : MetricsCollector Binary64} (ht : TimeBase c.seconds) (g : Generation)
    (lines : List Bytes) {l : NetworkLoop Binary64} {n : ℕ} (hn : n + lines.length ≤ 2 ^ 53)
    (h : Summed l.network.rxKbps n ∧ Summed l.network.txKbps n) :
    Summed (lines.foldl (networkLine g c) l).network.rxKbps (n + lines.length) ∧
      Summed (lines.foldl (networkLine g c) l).network.txKbps (n + lines.length) := by
  induction lines generalizing l n with
  | nil => exact h
  | cons line lines ih =>
    rw [List.length_cons] at hn ⊢
    rw [show n + (lines.length + 1) = n + 1 + lines.length by omega]
    exact ih (by omega) (networkLine_summed ht g line (by omega) h)

theorem length_lines (text : Bytes) : (Istream.lines text).length ≤ text.length := by
  induction text with
  | nil => exact Nat.le_refl 0
  | cons c text ih =>
    rw [Istream.lines]
    split
    · simpa using ih
    · cases h : Istream.lines text with
      | nil => simp
      | cons line rest =>
        rw [h] at ih
        simpa using Nat.le_succ_of_le ih

/-- The rates of the network section. -/
theorem network_rates {c : MetricsCollector Binary64} (ht : TimeBase c.seconds) {g : Generation}
    (hread : Bounded (g.source.proc (lit "net/dev"))) :
    (∃ x, Is (c.network g).1.value.1.rxKbps x) ∧ ∃ x, Is (c.network g).1.value.1.txKbps x := by
  unfold network
  cases h : g.source.proc (lit "net/dev") with
  | error e => exact ⟨⟨0, is_zero⟩, ⟨0, is_zero⟩⟩
  | ok text =>
    have hzero : Summed zero 0 := ⟨0, is_zero, by simp⟩
    have hlength : (Istream.lines text).length ≤ 8 * 1024 * 1024 :=
      (length_lines text).trans (hread text h)
    obtain ⟨⟨x, hx, -⟩, ⟨y, hy, -⟩⟩ := foldl_summed ht g (Istream.lines text) (n := 0)
      (l := { network := { (default : NetworkMetrics Binary64) with timestamp := g.timestamp }
              interfaces := [] }) (by omega) ⟨hzero, hzero⟩
    exact ⟨⟨x, hx⟩, ⟨y, hy⟩⟩

/-! ## Sections with conditions -/

/-- No CPU usage is rounded over 100. -/
def UsagesRound (c : MetricsCollector Binary64) (g : Generation) : Prop :=
  ∀ now, cpuSample g = some now → ∀ e ∈ now, ∀ before, c.cpuPrevious.get e.1 = some before →
    ¬ BusyOver e.2 before

/-- Less than 2^46 ticks apart they are not. -/
theorem usagesRound_of_spent {c : MetricsCollector Binary64} {g : Generation}
    (h : ∀ now, cpuSample g = some now → ∀ e ∈ now, ∀ before, c.cpuPrevious.get e.1 = some before →
      spent (e.2.val.zip before.val) < 2 ^ 46) : UsagesRound c g :=
  fun now hnow e he before hbefore => not_busyOver (h now hnow e he before hbefore)

/-- The numbers of statvfs, multiplied in 64 bits, are consistent and do not round over 100. -/
def DiskConsistent (g : Generation) : Prop :=
  ∀ st, g.source.filesystem = .ok st →
    let total := st.blocks * st.frsize
    let used := (if st.blocks ≥ st.bfree then st.blocks - st.bfree else 0) * st.frsize
    st.bavail * st.frsize ≤ total ∧ used ≤ total ∧ ¬ Overfull used.toNat total.toNat

/-- None of the numbers that are read of loadavg is negative. -/
def LoadsCounted (g : Generation) : Prop :=
  ∀ text, g.source.proc (lit "loadavg") = .ok text →
    0 ≤ (loadNumbers (D := Binary64) text).1.1.val ∧ 0 ≤ (loadNumbers (D := Binary64) text).1.2.1.val ∧
      0 ≤ (loadNumbers (D := Binary64) text).1.2.2.val

theorem percentage_usageOf (c : MetricsCollector Binary64) (e : Int × CpuTimes) :
    Decode.percentage ((some ((c.usageOf e).getD zero)).filter Double.isFinite) = true ↔
      ∀ before, c.cpuPrevious.get e.1 = some before → ¬ BusyOver e.2 before := by
  unfold usageOf
  cases h : c.cpuPrevious.get e.1 with
  | none =>
    rw [Option.bind_none, Option.getD_none, percentage_is is_zero]
    exact iff_of_true (by norm_num) fun _ hb => nomatch hb
  | some before =>
    rw [Option.bind_some, percentage_usage]
    simp

/-- The checks on the CPU section. -/
theorem cpu_accepted (c : MetricsCollector Binary64) (g : Generation) :
    (Decode.checkTopology (c.cpu g).1.value.1.toJson = .ok () ∧
      Decode.checkTotalUsage (c.cpu g).1.value.1.toJson = .ok () ∧
      ∀ n ∈ arrayOr (c.cpu g).1.value.1.toJson (lit "per_core_usage_percent"),
        Decode.checkCoreUsage n = .ok ()) ↔
      (∀ now, cpuSample g = some now → now.length ≤ 65537) ∧ UsagesRound c g := by
  cases h : cpuSample g with
  | none =>
    have hvalue := congrArg Prod.fst (cpu_none h c).1
    dsimp only at hvalue
    rw [hvalue]
    refine iff_of_true ⟨rfl, ?_, fun n hn => nomatch hn⟩
      ⟨fun _ hnow => (nomatch hnow), fun now hnow => (nomatch h.symm.trans hnow)⟩
    exact Decode.require_ok.mpr ((percentage_is is_zero).mpr (by norm_num))
  | some now =>
    obtain ⟨times, cores, rfl, hascending, hcores⟩ := cpuSample_cons h
    have hcount : cores.length ≤ 2 ^ 31 := by
      have hbounds : ∀ x ∈ cores.map Prod.fst, (0 : Int) ≤ x ∧ x < 2 ^ 31 := by
        intro x hx
        obtain ⟨e, he, rfl⟩ := List.mem_map.mp hx
        exact hcores e he
      simpa using length_le_of_ascending hascending hbounds
    have hvalue := congrArg (fun o => o.1.value.1) (cpu_sampled h (fun e he => (hcores e he).1) c)
    dsimp only at hvalue
    have hnat : (UInt32.ofNat cores.length).toUInt64.toNat = cores.length := by
      rw [UInt32.toNat_toUInt64, UInt32.toNat_ofNat_of_lt' (show cores.length < 2 ^ 32 by omega)]
    have htopology : Decode.checkTopology (c.cpu g).1.value.1.toJson = .ok () ↔
        cores.length ≤ 65536 := by
      rw [hvalue, Decode.checkTopology, Decode.require_ok]
      have h1 : Access.uint (CPUMetrics.toJson
          { timestamp := g.timestamp, coreCount := UInt32.ofNat cores.length
            totalUsagePercent := (c.usageOf (-1, times)).getD zero
            perCoreUsagePercent := cores.map fun e => (c.usageOf e).getD zero
            frequencyMhz := zero }) (lit "core_count") =
          some (UInt32.ofNat cores.length).toUInt64 := rfl
      have h2 : (CPUMetrics.toJson
          { timestamp := g.timestamp, coreCount := UInt32.ofNat cores.length
            totalUsagePercent := (c.usageOf (-1, times)).getD zero
            perCoreUsagePercent := cores.map fun e => (c.usageOf e).getD zero
            frequencyMhz := zero }).field (lit "per_core_usage_percent") =
          some (.array ((cores.map fun e => (c.usageOf e).getD zero).map .double)) := rfl
      rw [h1, h2]
      simp [hnat, JSONValue.isArray, JSONValue.size]
    have htotal : Decode.checkTotalUsage (c.cpu g).1.value.1.toJson = .ok () ↔
        ∀ before, c.cpuPrevious.get (-1) = some before → ¬ BusyOver times before := by
      rw [hvalue, ← percentage_usageOf c (-1, times)]
      exact Decode.require_ok
    have husages : (∀ n ∈ arrayOr (c.cpu g).1.value.1.toJson (lit "per_core_usage_percent"),
        Decode.checkCoreUsage n = .ok ()) ↔
        ∀ e ∈ cores, ∀ before, c.cpuPrevious.get e.1 = some before → ¬ BusyOver e.2 before := by
      have hlist : arrayOr (c.cpu g).1.value.1.toJson (lit "per_core_usage_percent") =
          (cores.map fun e => (c.usageOf e).getD zero).map .double := by
        rw [hvalue]
        rfl
      rw [hlist]
      simp only [List.forall_mem_map]
      refine forall₂_congr fun e _ => ?_
      rw [← percentage_usageOf c e]
      exact Decode.require_ok
    rw [htopology, htotal, husages]
    constructor
    · rintro ⟨hle, hfirst, hrest⟩
      refine ⟨fun now hnow => ?_, fun now hnow => ?_⟩
      · obtain rfl := Option.some.inj hnow
        exact Nat.succ_le_succ hle
      · obtain rfl := Option.some.inj (h.symm.trans hnow)
        exact List.forall_mem_cons.mpr ⟨hfirst, hrest⟩
    · rintro ⟨hle, hround⟩
      obtain ⟨hfirst, hrest⟩ := List.forall_mem_cons.mp (hround _ h)
      exact ⟨Nat.le_of_succ_le_succ (hle _ rfl), hfirst, hrest⟩

theorem memory_accepted (g : Generation) {m : MemoryMetrics Binary64} (hm : (memory g).value = m) :
    Consistent m.totalBytes m.availableBytes m.usedBytes m.usedPercent ↔ MemoryRounds g := by
  subst hm
  unfold memory MemoryRounds
  cases hfile : g.source.proc (lit "meminfo") with
  | error e => exact iff_of_true consistent_zero fun _ _ _ hf => nomatch hf
  | ok text =>
    cases hvalues : memoryValues text with
    | none =>
      simp only [hvalues]
      refine iff_of_true consistent_zero fun text' total available hf hv => ?_
      obtain rfl := Except.ok.inj hf
      cases hvalues.symm.trans hv
    | some values =>
      obtain ⟨total, available⟩ := values
      obtain ⟨-, -, hpos, hle, hfit⟩ := memoryValues_eq hvalues
      obtain ⟨ht, ha, hu⟩ := memory_products hle hfit
      have hused : (total * 1024 - available * 1024).toNat ≤ (total * 1024).toNat := by
        rw [hu, ht]
        exact Nat.mul_le_mul_right _ (Nat.sub_le ..)
      have hpercent := percentage_percent (by rw [ht]; omega) hused
      rw [hu, ht] at hpercent
      have havailable : available * 1024 ≤ total * 1024 := by
        rw [UInt64.le_iff_toNat_le, ha, ht]
        exact Nat.mul_le_mul_right _ hle
      simp only [hvalues]
      constructor
      · intro h text' total' available' hf hv
        obtain rfl := Except.ok.inj hf
        obtain ⟨rfl, rfl⟩ := Prod.mk.inj (Option.some.inj (hvalues.symm.trans hv))
        exact hpercent.mp h.2.2
      · intro h
        exact ⟨havailable, UInt64.le_iff_toNat_le.mpr hused,
          hpercent.mpr (h text total available rfl hvalues)⟩

theorem filesystem_accepted (g : Generation) {m : DiskMetrics Binary64}
    (hm : (filesystem g).value = m) :
    Consistent m.totalBytes m.availableBytes m.usedBytes m.usedPercent ↔ DiskConsistent g := by
  subst hm
  unfold filesystem DiskConsistent
  cases g.source.filesystem with
  | error e => exact iff_of_true consistent_zero fun _ hst => nomatch hst
  | ok st =>
    constructor
    · rintro ⟨havailable, hused, hpercent⟩ st' hst
      obtain rfl := Except.ok.inj hst
      exact ⟨havailable, hused,
        (percentage_guarded (UInt64.le_iff_toNat_le.mp hused)).mp hpercent⟩
    · intro h
      obtain ⟨havailable, hused, hover⟩ := h st rfl
      exact ⟨havailable, hused, (percentage_guarded (UInt64.le_iff_toNat_le.mp hused)).mpr hover⟩

/-! ## Load -/

theorem fromStream_finite (text : Bytes) : (Binary64.fromStream text).1.isFinite = true := by
  have hlargest : nearest |(2 ^ 1024 - 2 ^ 971 : ℚ)| < 2 ^ 1024 := by
    have hpow : (2 : ℚ) ^ 1024 = 2 ^ 53 * 2 ^ 971 := by
      rw [show 1024 = 53 + 971 by rfl, pow_add]
    have hpos : (0 : ℚ) < 2 ^ 971 := by positivity
    have hform : (2 ^ 1024 - 2 ^ 971 : ℚ) = ((2 ^ 53 - 1 : ℤ) : ℚ) * 2 ^ (971 : ℤ) := by
      rw [hpow, zpow_ofNat, Int.cast_sub, Int.cast_pow, Int.cast_ofNat, Int.cast_one, sub_mul, one_mul]
    have h0 : (0 : ℚ) ≤ 2 ^ 1024 - 2 ^ 971 :=
      sub_nonneg.mpr (pow_le_pow_right₀ one_le_two (by norm_num))
    rw [abs_of_nonneg h0, hform, nearest_exact (by norm_num) (by norm_num) (by norm_num), ← hform]
    exact sub_lt_self _ hpos
  unfold Binary64.fromStream
  dsimp only
  split
  · exact is_zero.finite
  · split_ifs
    · assumption
    · exact Binary64.round_finite (by rwa [abs_neg])
    · assumption
    · exact Binary64.round_finite hlargest

theorem real_finite {input : Option Bytes} :
    (((Istream.real (Arithmetic.fromStream (D := Binary64)) input).1).getD zero).isFinite = true := by
  unfold Istream.real
  split
  · exact is_zero.finite
  · exact is_zero.finite
  · exact fromStream_finite _

/-- The check on a finite number. -/
theorem nonnegative_iff_val {d : Binary64} (h : d.isFinite = true) :
    Decode.nonnegative ((some d).filter Double.isFinite) = true ↔ 0 ≤ d.val := by
  have hfinite : Double.isFinite d = true := h
  obtain ⟨z, hz, hval⟩ := is_zero
  have hzero : (Double.ofInt64 0 : Binary64) = .finite false z := hz
  have hneg : Decode.negative d = true ↔ d.val < 0 := by
    rw [Decode.negative, hzero]
    cases d with
    | nan => cases h
    | infinite negative => cases h
    | finite negative m =>
      show decide ((Binary64.finite negative m).val < (Binary64.finite false z).val) = true ↔ _
      rw [decide_eq_true_eq, show (Binary64.finite false z).val = z.val from rfl, hval]
  rw [Option.filter_some, if_pos hfinite, Decode.nonnegative, Option.any_some, Bool.not_eq_true',
    ← Bool.not_eq_true, hneg, not_lt]

theorem load_accepted (g : Generation) {m : LoadavgMetrics Binary64} (hm : (load g).value = m) :
    (Decode.nonnegative ((some m.load1m).filter Double.isFinite) = true ∧
      Decode.nonnegative ((some m.load5m).filter Double.isFinite) = true ∧
        Decode.nonnegative ((some m.load15m).filter Double.isFinite) = true) ↔ LoadsCounted g := by
  subst hm
  unfold LoadsCounted
  cases h : g.source.proc (lit "loadavg") with
  | error e =>
    rw [load, h]
    exact iff_of_true ⟨nonnegative_is is_zero, nonnegative_is is_zero, nonnegative_is is_zero⟩
      fun _ ht => by cases ht
  | ok text =>
    rw [load_eq h]
    dsimp only
    have h1 := nonnegative_iff_val (d := (loadNumbers (D := Binary64) text).1.1) real_finite
    have h2 := nonnegative_iff_val (d := (loadNumbers (D := Binary64) text).1.2.1) real_finite
    have h3 := nonnegative_iff_val (d := (loadNumbers (D := Binary64) text).1.2.2) real_finite
    rw [h1, h2, h3]
    simp

/-! ## Processes -/

/-- The published rows. -/
theorem processes_length (g : Generation) (c : MetricsCollector Binary64) (totalBytes : UInt64) :
    (c.processes g totalBytes).1.value.process.processes.length =
      min c.config.maxProcesses (samples g c (visited g)).length := by
  unfold processes visited
  cases g.source.pids with
  | error e => simp [samples, default]
  | ok pids =>
    have hrows := (visitAll_spec g c totalBytes 0 pids.val {}).1
    dsimp only at hrows ⊢
    rw [firstRows, List.length_take, List.length_mergeSort, hrows, List.nil_append, List.length_map]
    omega

/-- The state bytes of the records that come among the published rows. -/
def StatesAscii (c : MetricsCollector Binary64) (g : Generation) : Prop :=
  ∀ pid ∈ visited g, ∀ p, visit g c pid = .sampled p →
    (c.timed g).processRow (memory (D := Binary64) g).value.totalBytes pid p ∈
      (c.collect g).1.process.processes → p.state.toNat < 128

theorem processes_accepted (c : MetricsCollector Binary64) (g : Generation) :
    (∀ row ∈ (c.collect g).1.process.processes, Decode.checkProcess row.toJson = .ok ()) ↔
      StatesAscii c g := by
  have ht := timed_timeBase c g
  constructor
  · intro h pid _ p hv hrow
    exact (processRow_passes ht hv _).mp (h _ hrow)
  · intro h row hrow
    obtain ⟨e, he, rfl⟩ := (processes_spec g (c.timed g) _).2 row hrow
    obtain ⟨hmem, hv⟩ := mem_samples.mp he
    exact (processRow_passes ht hv _).mpr (h e.1 hmem e.2 hv hrow)

/-! ## The whole snapshot -/

/-- What a generation must bring for its snapshot to be accepted. -/
structure Acceptable (c : MetricsCollector Binary64) (g : Generation) (instanceId : Bytes) : Prop where
  identified : instanceId ≠ []
  interval : 100 ≤ c.config.pollInterval.toNat ∧ c.config.pollInterval.toNat ≤ 60000
  cores : ∀ now, cpuSample g = some now → now.length ≤ 65537
  usages : UsagesRound c g
  memory : MemoryRounds g
  disk : DiskConsistent g
  loads : LoadsCounted g
  rows : min c.config.maxProcesses (samples g (c.timed g) (visited g)).length ≤ 10000
  states : StatesAscii c g

/-- What the worker adds to a snapshot. -/
def stamped (s : SystemSnapshot Binary64) (sequence : UInt64) (instanceId : Bytes)
    (skippedTicks : UInt64) : SystemSnapshot Binary64 :=
  { s with telemetry := { s.telemetry with sequence, instanceId, skippedTicks } }

theorem checkIdentity_iff (t : TelemetryInfo Binary64) :
    Decode.checkIdentity t.toJson = .ok () ↔ t.instanceId ≠ [] := by
  have hsequence : (Access.uint t.toJson (lit "sequence")).isSome = true := rfl
  have htext : Access.text t.toJson (lit "instance_id") = t.instanceId := rfl
  rw [Decode.checkIdentity, Decode.require_ok, hsequence, htext]
  simp

theorem checkInterval_iff (t : TelemetryInfo Binary64) : Decode.checkInterval t.toJson = .ok () ↔
    100 ≤ t.intervalMs.toNat ∧ t.intervalMs.toNat ≤ 60000 := by
  have hinterval : Access.uint t.toJson (lit "interval_ms") = some t.intervalMs := rfl
  rw [Decode.checkInterval, Decode.require_ok, hinterval, Option.any_some, decide_eq_true_eq]

theorem checkProcessList_iff (m : ProcessMetrics Binary64) :
    Decode.checkProcessList m.toJson = .ok () ↔ m.processes.length ≤ 10000 := by
  have hlist : m.toJson.field (lit "processes") =
      some (.array (m.processes.map ProcessInfo.toJson)) := rfl
  rw [Decode.checkProcessList, Decode.require_ok, hlist]
  simp [JSONValue.isArray, JSONValue.size]

/-- The checks that do not depend on the numbers. -/
theorem checkTree (s : SystemSnapshot Binary64) :
    Decode.checkVersion (encodeTree s) = .ok () ∧
      (∀ key ∈ Decode.sections ++ [lit "telemetry"],
        Decode.checkObject (encodeTree s) key = .ok ()) ∧
      ∀ key ∈ Decode.sections, Decode.checkTimestamp (encodeTree s) key = .ok () := by
  refine ⟨Decode.require_ok.mpr (decide_eq_true ⟨rfl, rfl⟩), ?_, ?_⟩
  · simp only [Decode.sections, List.cons_append, List.nil_append, List.forall_mem_cons]
    exact ⟨rfl, rfl, rfl, rfl, rfl, rfl, rfl, fun _ h => nomatch h⟩
  · simp only [Decode.sections, List.forall_mem_cons]
    exact ⟨rfl, rfl, rfl, rfl, rfl, rfl, fun _ h => nomatch h⟩

theorem accepted_iff (c : MetricsCollector Binary64) {g : Generation} (sequence : UInt64)
    (instanceId : Bytes) (skippedTicks : UInt64) (hread : Bounded (g.source.proc (lit "net/dev"))) :
    Decode.Accepted (encodeTree (stamped (c.collect g).1 sequence instanceId skippedTicks)) ↔
      Acceptable c g instanceId := by
  have ht := timed_timeBase c g
  generalize hs : stamped (c.collect g).1 sequence instanceId skippedTicks = s
  have hcpu := cpu_accepted (c.timed g) g
  have hmetrics : s.cpu = ((c.timed g).cpu g).1.value.1 := hs ▸ rfl
  rw [← hmetrics] at hcpu
  have hmemory := (checkMemory_iff s).trans (memory_accepted g (m := s.memory) (hs ▸ rfl))
  have hdisk := (checkDisk_iff s).trans (filesystem_accepted g (m := s.disk) (hs ▸ rfl))
  have hload := load_accepted g (m := s.loadavg) (hs ▸ rfl)
  have hprocess : s.process = ((c.timed g).processes g
      (memory (D := Binary64) g).value.totalBytes).1.value.process := hs ▸ rfl
  have hlist := checkProcessList_iff s.process
  have hlength : s.process.processes.length =
      min c.config.maxProcesses (samples g (c.timed g) (visited g)).length := by
    rw [hprocess]
    exact processes_length g (c.timed g) _
  rw [hlength] at hlist
  have hrows : (c.collect g).1.process.processes = s.process.processes := hs ▸ rfl
  have hstates : (∀ p ∈ s.process.processes.map ProcessInfo.toJson, Decode.checkProcess p = .ok ()) ↔
      StatesAscii c g := by
    rw [List.forall_mem_map, ← hrows]
    exact processes_accepted c g
  have hidentity := checkIdentity_iff s.telemetry
  have hinterval := checkInterval_iff s.telemetry
  have hinstance : s.telemetry.instanceId = instanceId := hs ▸ rfl
  have hpoll : s.telemetry.intervalMs = c.config.pollInterval := hs ▸ rfl
  rw [hinstance] at hidentity
  rw [hpoll] at hinterval
  constructor
  · intro h
    obtain ⟨hcores, husages⟩ := hcpu.mp ⟨h.topology, h.totalUsage, h.coreUsage⟩
    obtain ⟨hm, hrest⟩ := List.forall_mem_cons.mp h.accounting
    have hd := List.forall_mem_singleton.mp hrest
    obtain ⟨h1, hrest⟩ := List.forall_mem_cons.mp h.loads
    obtain ⟨h5, hrest⟩ := List.forall_mem_cons.mp hrest
    have h15 := List.forall_mem_singleton.mp hrest
    exact ⟨hidentity.mp h.identity, hinterval.mp h.interval, hcores, husages, hmemory.mp hm,
      hdisk.mp hd, hload.mp ⟨Decode.require_ok.mp h1, Decode.require_ok.mp h5,
        Decode.require_ok.mp h15⟩, hlist.mp h.processList, hstates.mp h.processes⟩
  · intro h
    obtain ⟨hversion, hobjects, htimestamps⟩ := checkTree s
    obtain ⟨htopology, htotal, husage⟩ := hcpu.mpr ⟨h.cores, h.usages⟩
    obtain ⟨h1, h5, h15⟩ := hload.mpr h.loads
    obtain ⟨⟨_, hrx⟩, ⟨_, htx⟩⟩ := network_rates ht hread
    have hnetwork : s.network = ((c.timed g).network g).1.value.1 := hs ▸ rfl
    rw [← hnetwork] at hrx htx
    exact ⟨hversion, hobjects, htimestamps, htopology, htotal, husage,
      List.forall_mem_cons.mpr ⟨hmemory.mpr h.memory, List.forall_mem_singleton.mpr (hdisk.mpr h.disk)⟩,
      List.forall_mem_cons.mpr ⟨Decode.require_ok.mpr (nonnegative_is hrx),
        List.forall_mem_singleton.mpr (Decode.require_ok.mpr (nonnegative_is htx))⟩,
      List.forall_mem_cons.mpr ⟨Decode.require_ok.mpr h1, List.forall_mem_cons.mpr
        ⟨Decode.require_ok.mpr h5, List.forall_mem_singleton.mpr (Decode.require_ok.mpr h15)⟩⟩,
      hidentity.mpr h.identified, hinterval.mpr h.interval, hlist.mpr h.rows, hstates.mpr h.states⟩

/-- The second check on two percentages, for numbers that have passed the first. -/
theorem percentage_checked {d : Binary64}
    (h : Decode.percentage ((some d).filter Double.isFinite) = true) :
    Double.isFinite d = true ∧ Decode.negative d = false ∧ Decode.above100 d = false := by
  cases hfinite : Double.isFinite d with
  | false => rw [Option.filter_some, hfinite] at h; cases h
  | true =>
    rw [Option.filter_some, if_pos hfinite, Decode.percentage, Option.any_some] at h
    simpa using h

theorem decodeTree_iff (c : MetricsCollector Binary64) {g : Generation} (sequence : UInt64)
    (instanceId : Bytes) (skippedTicks : UInt64) (hread : Bounded (g.source.proc (lit "net/dev")))
    (s' : SystemSnapshot Binary64) :
    decodeTree (encodeTree (stamped (c.collect g).1 sequence instanceId skippedTicks)) = .ok s' ↔
      s' = stamped (c.collect g).1 sequence instanceId skippedTicks ∧ Acceptable c g instanceId := by
  have haccepted := accepted_iff c sequence instanceId skippedTicks hread
  have htelemetry := telemetry_finite c g
  have hback := SystemSnapshot.fromJson_members
    (stamped (c.collect g).1 sequence instanceId skippedTicks)
    ⟨htelemetry.interfaces, htelemetry.disks, htelemetry.pressure, htelemetry.cgroup⟩
    [(lit "protocol_version", .uint64 kVersion), (lit "type", .string (lit "snapshot"))]
  generalize stamped (c.collect g).1 sequence instanceId skippedTicks = s at *
  rw [Decode.decodeTree_ok, haccepted]
  constructor
  · rintro ⟨h, hs, -⟩
    exact ⟨hs.symm.trans hback, h⟩
  · rintro ⟨rfl, h⟩
    have ha := haccepted.mpr h
    obtain ⟨hf, hn, hle⟩ := percentage_checked (Decode.require_ok.mp ha.totalUsage)
    obtain ⟨hf', hn', hle'⟩ := percentage_checked
      ((checkMemory_iff s').mp (List.forall_mem_cons.mp ha.accounting).1).2.2
    refine ⟨h, hback, Decode.require_ok.mpr ?_⟩
    simp only [hf, hn, hle, hf', hn', hle', Bool.not_false, and_self, decide_true]

/-- Whatever the worker publishes of a generation, Decode accepts its tree as what it is if and only
if the generation is acceptable, and accepts nothing else for it. No counter, rate or truncation in
the files can make a difference. -/
theorem publication_accepted {c : MetricsCollector Binary64} {g : Generation} {instanceId : Bytes}
    {w w' : Worker Binary64} {t : Turn Binary64}
    (hread : Bounded (g.source.proc (lit "net/dev"))) (ht : t.collected = some (c.collect g).1)
    (hp : t.publishes = true) (hw : w.sample instanceId t = some w') :
    ∃ s, w'.published = w.published ++ [s] ∧
      ∀ s', decodeTree (encodeTree s) = .ok s' ↔ s' = s ∧ Acceptable c g instanceId := by
  unfold Worker.sample at hw
  rw [ht] at hw
  dsimp only at hw
  by_cases hstop : t.stopRequested = true
  · rw [if_pos hstop] at hw
    cases hw
  · rw [if_neg hstop] at hw
    obtain rfl := Option.some.inj hw
    exact ⟨stamped (c.collect g).1 (w.sequence + 1) instanceId w.skipped, if_pos hp,
      decodeTree_iff c _ _ _ hread⟩

/-- The turn that collects a generation without a stop. -/
def collecting (c : MetricsCollector Binary64) (g : Generation) : Turn Binary64 :=
  { begun := g.now, collected := some (c.collect g).1, stopRequested := false, publishes := true
    now := g.now }

/-- A machine with one core, one interface, one disk and one process. -/
def machine (now : TimePoint) (ticks bytes sectors : String) : Generation :=
  let zeros := lit " 0 0 0 0 0 0 0 "
  { source :=
      { proc := fun path =>
          if path = lit "stat" then
            .ok (lit "cpu " ++ lit ticks ++ lit " 0 0 70 0 0 0 0\ncpu0 " ++ lit ticks ++
              lit " 0 0 70 0 0 0 0\n")
          else if path = lit "meminfo" then .ok (lit "MemTotal: 1000 kB\nMemAvailable: 250 kB\n")
          else if path = lit "net/dev" then
            .ok (lit "eth0: " ++ lit bytes ++ zeros ++ lit bytes ++ zeros ++ lit "\n")
          else if path = lit "diskstats" then
            .ok (lit "8 0 sda 3 0 " ++ lit sectors ++ lit " 0 5 0 " ++ lit sectors ++ lit " 0 0 40 0\n")
          else if path = lit "loadavg" then .ok (lit "0.50 1.25 2.00 1/2 3\n")
          else if path = lit "7/stat" then
            .ok (lit "7 (sh) R 1 7 7 0 -1 0 0 0 0 0 " ++ lit ticks ++ lit " 0 0 0 20 0 1 0 50 4096 3 0\n")
          else .error 2
        sys := fun _ => .error 2
        cgroup := fun _ => .error 2
        pids := .ok ⟨[7], by decide⟩
        filesystem := .ok { blocks := 100, bfree := 40, bavail := 30, frsize := 4096 }
        cgroupIdentity := []
        message := fun _ => [] }
    now }

def started : MetricsCollector Binary64 := (fresh.collect (machine epoch "5" "1000" "8")).2

/-- Two seconds later, with 4 ticks, 4096 bytes and 16 sectors more. -/
def busy : Generation := machine twoSeconds "9" "5096" "24"

theorem acceptable_busy : Acceptable started busy [1] where
  identified := List.cons_ne_nil 1 []
  interval := by decide
  cores now hnow := by
    have hlength : (cpuSample busy).map List.length = some 2 := by decide +kernel
    rw [hnow, Option.map_some, Option.some.injEq] at hlength
    omega
  usages := usagesRound_of_spent fun now hnow e he before hbefore => by
    have hfew : (cpuSample busy).all (fun now => now.all fun e =>
        (started.cpuPrevious.get e.1).all fun before =>
          decide (spent (e.2.val.zip before.val) < 2 ^ 46)) = true := by decide +kernel
    rw [hnow, Option.all_some, List.all_eq_true] at hfew
    have hspent := hfew e he
    rw [hbefore, Option.all_some, decide_eq_true_eq] at hspent
    exact hspent
  memory text total available htext hvalues := by
    obtain rfl := Except.ok.inj htext
    obtain ⟨rfl, rfl⟩ := Prod.mk.inj (Option.some.inj (hvalues.symm.trans
      (show _ = some (1000, 250) by decide +kernel)))
    exact fun h => absurd h.1 (by decide +kernel)
  disk st hst := by
    obtain rfl := Except.ok.inj hst
    exact ⟨by decide, by decide, fun h => absurd h.1 (by decide +kernel)⟩
  loads text htext := by
    obtain rfl := Except.ok.inj htext
    exact ⟨by decide +kernel, by decide +kernel, by decide +kernel⟩
  rows := by decide +kernel
  states pid hpid p hv _ := by
    have hascii : (visited busy).all (fun pid =>
        (visit busy started pid).sample.all fun p => decide (p.state.toNat < 128)) = true := by
      decide +kernel
    have hpass := List.all_eq_true.mp hascii pid hpid
    rw [hv] at hpass
    exact of_decide_eq_true hpass

theorem publication_accepted_busy : ∃ s,
    (Worker.sample [1] { next := 0 } (collecting started busy)).map Worker.published = some [s] ∧
      (s.cpu.perCoreUsagePercent.map Binary64.val, s.memory.usedBytes, s.disk.usedBytes) =
        ([100], 768000, 245760) ∧
      (s.network.rxKbps.val, s.loadavg.load1m.val) = (2, 1 / 2) ∧
      s.telemetry.disks.map (fun d => d.readBytesPerSecond.map Binary64.val) = [some 4096] ∧
      s.process.processes.map (fun row => (row.name, row.cpuPercent.val)) = [(lit "sh", 2)] ∧
      ∀ s', decodeTree (encodeTree s) = .ok s' ↔ s' = s := by
  have hread : Bounded (busy.source.proc (lit "net/dev")) := by
    intro text h
    obtain rfl := Except.ok.inj h
    decide +kernel
  obtain ⟨s, hs, hdecode⟩ := publication_accepted (c := started) (w := { next := 0 })
    (t := collecting started busy) hread rfl rfl rfl
  have hstamped : stamped (started.collect busy).1 1 [1] 0 = s := List.singleton_inj.mp hs
  refine ⟨s, congrArg some hs, ?_, ?_, ?_, ?_, fun s' =>
    (hdecode s').trans (and_iff_left acceptable_busy)⟩ <;> rw [← hstamped] <;> decide +kernel

end WebHtop.Server.Collectors.MetricsCollector
