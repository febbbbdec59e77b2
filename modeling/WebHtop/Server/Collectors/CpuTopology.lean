import WebHtop.Server.Collectors.Rates
import WebHtop.Server.Collectors.Validity

/-!
# The CPU section over a run

The sample of a generation is ordered by CPU with the aggregate, numbered -1, in front of the
cores, so the ids, the usages and their count stay aligned when CPUs come and go. The status is
judged against the sample of the generation before. Arithmetic is exact here.
-/

namespace WebHtop.Server.Collectors

open WebHtop.Lib WebHtop.Common

/-! ## Samples -/

/-- Ascending ids, those of the aggregate and of `int` values that are not negative. -/
structure CpuOrdered (t : CpuSample) : Prop where
  sorted : (t.map Prod.fst).Pairwise (· < ·)
  ids : ∀ e ∈ t, e.1 = -1 ∨ 0 ≤ e.1 ∧ e.1 < 2 ^ 31

theorem emplace_mem {id : Int} {times : CpuTimes} {t : CpuSample} {e : Int × CpuTimes}
    (h : e ∈ emplace id times t) : e = (id, times) ∨ e ∈ t := by
  induction t with
  | nil => exact .inl (List.mem_singleton.mp h)
  | cons e' t ih =>
    rw [emplace] at h
    split_ifs at h
    · exact List.mem_cons.mp h
    · exact .inr h
    · rcases List.mem_cons.mp h with rfl | h
      · exact .inr List.mem_cons_self
      · exact (ih h).imp_right (List.mem_cons_of_mem e')

theorem emplace_sorted {id : Int} {times : CpuTimes} {t : CpuSample}
    (h : (t.map Prod.fst).Pairwise (· < ·)) : ((emplace id times t).map Prod.fst).Pairwise (· < ·) := by
  induction t with
  | nil => exact List.pairwise_singleton _ _
  | cons e t ih =>
    obtain ⟨hfirst, hrest⟩ := List.pairwise_cons.mp h
    rw [emplace]
    split_ifs with hlt heq
    · refine List.pairwise_cons.mpr ⟨fun k hk => ?_, h⟩
      rcases List.mem_cons.mp hk with rfl | hk
      · exact hlt
      · exact hlt.trans (hfirst k hk)
    · exact h
    · refine List.pairwise_cons.mpr ⟨fun k hk => ?_, ih hrest⟩
      obtain ⟨e', he', rfl⟩ := List.mem_map.mp hk
      rcases emplace_mem he' with rfl | he'
      · exact lt_of_le_of_ne (not_lt.mp hlt) (Ne.symm heq)
      · exact hfirst _ (List.mem_map_of_mem he')

theorem CpuOrdered.emplace {id : Int} {times : CpuTimes} {t : CpuSample} (h : CpuOrdered t)
    (hid : id = -1 ∨ 0 ≤ id ∧ id < 2 ^ 31) : CpuOrdered (emplace id times t) := by
  refine ⟨emplace_sorted h.sorted, fun e he => ?_⟩
  rcases emplace_mem he with rfl | he
  · exact hid
  · exact h.ids e he

theorem cpuId_range {label : Bytes} {id : Int} (h : cpuId label = some id) :
    id = -1 ∨ 0 ≤ id ∧ id < 2 ^ 31 := by
  unfold cpuId at h
  split_ifs at h
  · exact .inl (Option.some.inj h).symm
  · obtain ⟨hparse, hnonneg⟩ := Option.filter_eq_some_iff.mp h
    exact .inr ⟨of_decide_eq_true hnonneg, MetricsCollector.parseSigned_lt hparse⟩

theorem cpuLine_range {line : Bytes} {id : Int} {times : CpuTimes}
    (h : cpuLine line = some (id, times)) : id = -1 ∨ 0 ≤ id ∧ id < 2 ^ 31 := by
  unfold cpuLine at h
  obtain ⟨id', hid, htimes⟩ := Option.bind_eq_some_iff.mp h
  obtain ⟨_, _, heq⟩ := Option.map_eq_some_iff.mp htimes
  obtain rfl := (Prod.mk.inj heq).1
  exact cpuId_range hid

theorem parseCpu_ordered (text : Bytes) : CpuOrdered (parseCpu text) := by
  unfold parseCpu
  -- Every line keeps the order.
  refine List.foldlRecOn _ _ ⟨List.Pairwise.nil, fun e he => absurd he List.not_mem_nil⟩ ?_
  intro t h line _
  cases hline : cpuLine line with
  | none => exact h
  | some e =>
    obtain ⟨id, times⟩ := e
    exact h.emplace (cpuLine_range hline)

/-- What a generation samples: nothing without the aggregate. -/
def cpuSample (g : Generation) : Option CpuSample :=
  (g.source.proc (lit "stat")).toOption.bind fun text =>
    if ((parseCpu text).get (-1)).isNone then none else some (parseCpu text)

/-- The aggregate comes first, the cores follow. -/
theorem cpuSample_cons {g : Generation} {now : CpuSample} (h : cpuSample g = some now) :
    ∃ times cores, now = (-1, times) :: cores ∧ (cores.map Prod.fst).Pairwise (· < ·) ∧
      ∀ e ∈ cores, 0 ≤ e.1 ∧ e.1 < 2 ^ 31 := by
  obtain ⟨text, -, htext⟩ := Option.bind_eq_some_iff.mp h
  split at htext
  · cases htext
  · rename_i hsome
    obtain rfl := Option.some.inj htext
    obtain ⟨hsorted, hids⟩ := parseCpu_ordered text
    obtain ⟨times, htimes⟩ := Option.ne_none_iff_exists'.mp (by simpa using hsome)
    have hmem := Table.mem_of_get htimes
    generalize parseCpu text = now at hsorted hids hmem
    cases now with
    | nil => exact absurd hmem List.not_mem_nil
    | cons e cores =>
      obtain ⟨hfirst, hrest⟩ := List.pairwise_cons.mp hsorted
      have hid : e = (-1, times) := by
        rcases List.mem_cons.mp hmem with he | hm
        · exact he.symm
        · have hlt : e.1 < -1 := hfirst _ (List.mem_map_of_mem (f := Prod.fst) hm)
          rcases hids e List.mem_cons_self with he | he <;> omega
      subst hid
      refine ⟨times, cores, rfl, hrest, fun e he => ?_⟩
      have hlt : -1 < e.1 := hfirst _ (List.mem_map_of_mem (f := Prod.fst) he)
      rcases hids e (List.mem_cons_of_mem _ he) with he' | he'
      · omega
      · exact he'

/-- Ascending integers of a range are at most as many as the range has. -/
theorem length_le_of_ascending {l : List Int} {lo hi : Int} (hs : l.Pairwise (· < ·))
    (hl : ∀ x ∈ l, lo ≤ x ∧ x < hi) : l.length ≤ (hi - lo).toNat := by
  induction l generalizing lo with
  | nil => exact Nat.zero_le _
  | cons x l ih =>
    obtain ⟨hfirst, hrest⟩ := List.pairwise_cons.mp hs
    obtain ⟨hlo, hhi⟩ := hl x List.mem_cons_self
    have hlength : l.length ≤ (hi - (x + 1)).toNat :=
      ih hrest fun y hy => ⟨hfirst y hy, (hl y (List.mem_cons_of_mem x hy)).2⟩
    rw [List.length_cons]
    omega

/-! ## Usages -/

/-- No counter decreased. -/
def Growing (counters : List (UInt64 × UInt64)) : Prop := ∀ e ∈ counters, e.2 ≤ e.1

/-- The ticks spent between the two readings. -/
def spent (counters : List (UInt64 × UInt64)) : ℚ :=
  (counters.map fun e => (e.1.toNat : ℚ) - e.2.toNat).sum

/-- The sums of the loop; the idle part is some of what is spent. -/
theorem cpuDeltas_spec (i : Nat) (counters : List (UInt64 × UInt64)) (total idle : ℚ) :
    (Growing counters ∧ ∃ idled, cpuDeltas i counters total idle = some (total + spent counters, idle + idled) ∧
      0 ≤ idled ∧ idled ≤ spent counters) ∨
    (¬ Growing counters ∧ cpuDeltas i counters total idle = none) := by
  induction counters generalizing i total idle with
  | nil =>
    refine .inl ⟨fun e he => absurd he List.not_mem_nil, 0, ?_, le_refl _, le_refl _⟩
    simp [cpuDeltas, spent]
  | cons e counters ih =>
    obtain ⟨now, before⟩ := e
    rw [cpuDeltas]
    by_cases hlt : now < before
    · rw [if_pos hlt]
      refine .inr ⟨fun h => ?_, rfl⟩
      exact absurd (h _ List.mem_cons_self) (UInt64.not_le.mpr hlt)
    · rw [if_neg hlt]
      have hle : before ≤ now := UInt64.not_lt.mp hlt
      have hdelta : (Double.ofUInt64 (now - before) : ℚ) = (now.toNat : ℚ) - before.toNat := by
        show (((now - before).toNat : ℕ) : ℚ) = _
        rw [UInt64.toNat_sub_of_le _ _ hle, Nat.cast_sub (UInt64.le_iff_toNat_le.mp hle)]
      have hdelta0 : (0 : ℚ) ≤ (now.toNat : ℚ) - before.toNat := by
        rw [← hdelta]
        exact Nat.cast_nonneg (now - before).toNat
      have hsum : spent ((now, before) :: counters) =
          ((now.toNat : ℚ) - before.toNat) + spent counters := List.sum_cons
      have hadd : ∀ x y : ℚ, Arithmetic.add x y = x + y := fun _ _ => rfl
      have hgrowing : Growing ((now, before) :: counters) ↔ Growing counters := by
        simp [Growing, hle]
      simp only [hadd, hdelta, hgrowing, hsum]
      rcases ih (i + 1) (total + (now.toNat - before.toNat))
        (if i = 3 ∨ i = 4 then idle + (now.toNat - before.toNat) else idle) with
        ⟨hg, idled, heq, h0, hidled⟩ | ⟨hg, heq⟩
      · refine .inl ⟨hg, if i = 3 ∨ i = 4 then (now.toNat - before.toNat) + idled else idled, ?_, ?_, ?_⟩
        · rw [heq]
          split <;> simp [add_assoc]
        · split <;> linarith
        · split <;> linarith
      · exact .inr ⟨hg, heq⟩

/-- A CPU has a usage when it grew, and the usage is a percentage. -/
theorem cpuUsage_spec (now before : CpuTimes) :
    (∃ usage : ℚ, cpuUsage now before = some usage ∧ 0 ≤ usage ∧ usage ≤ 100 ∧
      Growing (now.val.zip before.val) ∧ 0 < spent (now.val.zip before.val)) ∨
    ((cpuUsage now before : Option ℚ) = none ∧
      ¬ (Growing (now.val.zip before.val) ∧ 0 < spent (now.val.zip before.val))) := by
  unfold cpuUsage
  rcases cpuDeltas_spec 0 (now.val.zip before.val) zero zero with ⟨hg, idled, heq, h0, hidled⟩ | ⟨hg, heq⟩
  · rw [heq, zero_rat, zero_add, zero_add, Option.bind_some]
    by_cases hpos : 0 < spent (now.val.zip before.val)
    · left
      have hle : Arithmetic.le (spent (now.val.zip before.val)) (0 : ℚ) = false :=
        decide_eq_false (not_le.mpr hpos)
      have hhundred : (Arithmetic.ofInt 100 : ℚ) = 100 := rfl
      refine ⟨100 * (spent (now.val.zip before.val) - idled) / spent (now.val.zip before.val),
        ?_, ?_, ?_, hg, hpos⟩
      · simp only [hle, Bool.false_eq_true, ↓reduceIte]
        rfl
      · exact div_nonneg (mul_nonneg (by norm_num) (by linarith)) hpos.le
      · rw [div_le_iff₀ hpos]
        linarith
    · right
      have hle : Arithmetic.le (spent (now.val.zip before.val)) (0 : ℚ) = true :=
        decide_eq_true (not_lt.mp hpos)
      simp only [hle, ↓reduceIte]
      exact ⟨trivial, fun h => hpos h.2⟩
  · rw [heq]
    exact .inr ⟨rfl, fun h => hg h.1⟩

/-! ## The section -/

namespace MetricsCollector

/-- The usage of a CPU against an earlier sample, if it has one. -/
def usageAgainst (before : CpuSample) (e : Int × CpuTimes) : Option ℚ :=
  (before.get e.1).bind fun times => cpuUsage e.2 times

/-- Every CPU of a sample, the aggregate too, is in the earlier one and grew. -/
def Steady (now before : CpuSample) : Prop :=
  ∀ e ∈ now, ∃ times, before.get e.1 = some times ∧ Growing (e.2.val.zip times.val) ∧
    0 < spent (e.2.val.zip times.val)

theorem usageAgainst_isSome {before : CpuSample} {e : Int × CpuTimes} :
    (usageAgainst before e).isSome = true ↔ ∃ times, before.get e.1 = some times ∧
      Growing (e.2.val.zip times.val) ∧ 0 < spent (e.2.val.zip times.val) := by
  unfold usageAgainst
  cases before.get e.1 with
  | none => simp
  | some times =>
    rw [Option.bind_some]
    rcases cpuUsage_spec e.2 times with ⟨usage, heq, -, -, hg⟩ | ⟨heq, hg⟩
    · simp [heq, hg]
    · simpa [heq] using hg

theorem usageAgainst_range (before : CpuSample) (e : Int × CpuTimes) :
    0 ≤ (usageAgainst before e).getD 0 ∧ (usageAgainst before e).getD 0 ≤ 100 := by
  unfold usageAgainst
  cases before.get e.1 with
  | none => exact ⟨le_refl _, by norm_num⟩
  | some times =>
    rw [Option.bind_some]
    rcases cpuUsage_spec e.2 times with ⟨usage, heq, h0, h100, -⟩ | ⟨heq, -⟩
    · rw [heq]
      exact ⟨h0, h100⟩
    · rw [heq]
      exact ⟨le_refl _, by norm_num⟩

section

variable {D : Type} [Arithmetic D]

theorem cpu_none {g : Generation} (h : cpuSample g = none) (c : MetricsCollector D) :
    (c.cpu g).1.value = (default, []) ∧ (c.cpu g).1.error.isSome = true ∧ (c.cpu g).2 = [] := by
  unfold cpuSample at h
  unfold cpu
  cases hfile : g.source.proc (lit "stat") with
  | error e => exact ⟨rfl, rfl, rfl⟩
  | ok text =>
    rw [hfile] at h
    dsimp only
    have hnone : ((parseCpu text).get (-1)).isNone = true := by
      by_contra hsome
      have : (if ((parseCpu text).get (-1)).isNone then none else some (parseCpu text)) =
        (none : Option CpuSample) := h
      rw [if_neg hsome] at this
      cases this
    rw [if_pos hnone]
    exact ⟨rfl, rfl, rfl⟩

/-- The usage of a CPU against the sample of the collector. -/
def usageOf (c : MetricsCollector D) (e : Int × CpuTimes) : Option D :=
  (c.cpuPrevious.get e.1).bind fun times => cpuUsage e.2 times

theorem cpu_sampled {g : Generation} {times : CpuTimes} {cores : CpuSample}
    (h : cpuSample g = some ((-1, times) :: cores)) (hcores : ∀ e ∈ cores, 0 ≤ e.1)
    (c : MetricsCollector D) :
    c.cpu g =
      ({ value :=
          ({ timestamp := g.timestamp
             coreCount := UInt32.ofNat cores.length
             totalUsagePercent := (c.usageOf (-1, times)).getD zero
             perCoreUsagePercent := cores.map fun e => (c.usageOf e).getD zero
             frequencyMhz := zero }, cores.map fun e => UInt32.ofNat e.1.toNat)
         state :=
          if ((-1, times) :: cores).all fun e => (c.usageOf e).isSome then lit "ok"
          else if c.cpuPrevious.isEmpty then lit "warming_up"
          else lit "partial" }, (-1, times) :: cores) := by
  obtain ⟨text, htext, hsample⟩ := Option.bind_eq_some_iff.mp h
  have hfile : g.source.proc (lit "stat") = .ok text := by
    cases hproc : g.source.proc (lit "stat") with
    | error e => rw [hproc] at htext; cases htext
    | ok t => rw [hproc] at htext; exact congrArg Except.ok (Option.some.inj htext)
  split at hsample
  · cases hsample
  · rename_i hsome
    have hnow := Option.some.inj hsample
    have hfilter : ((cores.map fun e => (e.1, c.usageOf e)).filter fun e => e.1 ≠ -1) =
        cores.map fun e => (e.1, c.usageOf e) := by
      refine List.filter_eq_self.mpr fun e he => ?_
      obtain ⟨e', he', rfl⟩ := List.mem_map.mp he
      have := hcores e' he'
      simp only [ne_eq, decide_not, Bool.not_eq_true', decide_eq_false_iff_not]
      omega
    unfold cpu
    rw [hfile]
    dsimp only
    rw [if_neg hsome, hnow]
    have husages : (((-1, times) :: cores).map fun e =>
        (e.1, (c.cpuPrevious.get e.1).bind fun previous => cpuUsage (D := D) e.2 previous)) =
        (-1, c.usageOf (-1, times)) :: cores.map fun e => (e.1, c.usageOf e) := rfl
    rw [husages, List.filter_cons_of_neg (by simp), hfilter]
    simp only [List.length_cons, Nat.add_sub_cancel, List.find?_cons_of_pos, decide_true, Option.bind_some,
      List.map_map, Function.comp_def, List.all_cons, List.all_map]
    rfl

end

theorem cpu_some {g : Generation} {times : CpuTimes} {cores : CpuSample}
    (h : cpuSample g = some ((-1, times) :: cores)) (hcores : ∀ e ∈ cores, 0 ≤ e.1)
    (c : MetricsCollector ℚ) :
    c.cpu g =
      ({ value :=
          ({ timestamp := g.timestamp
             coreCount := UInt32.ofNat cores.length
             totalUsagePercent := (usageAgainst c.cpuPrevious (-1, times)).getD zero
             perCoreUsagePercent := cores.map fun e => (usageAgainst c.cpuPrevious e).getD zero
             frequencyMhz := zero }, cores.map fun e => UInt32.ofNat e.1.toNat)
         state :=
          if ((-1, times) :: cores).all fun e => (usageAgainst c.cpuPrevious e).isSome then lit "ok"
          else if c.cpuPrevious.isEmpty then lit "warming_up"
          else lit "partial" }, (-1, times) :: cores) :=
  cpu_sampled h hcores c

theorem cpu_next (g : Generation) (c : MetricsCollector ℚ) : (c.cpu g).2 = (cpuSample g).getD [] := by
  cases h : cpuSample g with
  | none => exact (cpu_none h c).2.2
  | some now =>
    obtain ⟨times, cores, rfl, -, hcores⟩ := cpuSample_cons h
    rw [cpu_some h (fun e he => (hcores e he).1) c]
    rfl

/-- What the generation before a section left for it. -/
def cpuBaseline (gs : List Generation) : CpuSample := (gs.getLast?.bind cpuSample).getD []

theorem cpuPrevious_run {c₀ : MetricsCollector ℚ} (h : c₀.cpuPrevious = []) (gs : List Generation) :
    (run c₀ gs).cpuPrevious = cpuBaseline gs := by
  induction gs using List.reverseRecOn with
  | nil => exact h
  | append_singleton gs g ih =>
    unfold run cpuBaseline at *
    rw [List.foldl_append, List.getLast?_append, List.getLast?_singleton, Option.some_or]
    exact cpu_next g _

/-- What is published of a sample, against the one before. -/
structure CpuSection (before : CpuSample) (g : Generation) (s : SystemSnapshot ℚ)
    (c' : MetricsCollector ℚ) : Prop where
  cores : s.cpu.coreCount.toNat = s.cpu.perCoreUsagePercent.length
  ids : s.telemetry.cpuIds.length = s.cpu.perCoreUsagePercent.length
  ascending : s.telemetry.cpuIds.Pairwise (· < ·)
  named : List.Forall₂ (fun (id : UInt32) usage => ∃ now times, cpuSample g = some now ∧
    ((id.toNat : Int), times) ∈ now ∧ usage = (usageAgainst before (id.toNat, times)).getD 0)
    s.telemetry.cpuIds s.cpu.perCoreUsagePercent
  complete : ∀ now, cpuSample g = some now → ∀ e ∈ now, e.1 ≠ -1 →
    ∃ id ∈ s.telemetry.cpuIds, (id.toNat : Int) = e.1
  total : 0 ≤ s.cpu.totalUsagePercent ∧ s.cpu.totalUsagePercent ≤ 100
  usages : ∀ usage ∈ s.cpu.perCoreUsagePercent, 0 ≤ usage ∧ usage ≤ 100
  checked : s.telemetry.cpuIds.length ≤ 65536 →
    Decode.checkTopology s.cpu.toJson = .ok () ∧ Decode.checkTotalUsage s.cpu.toJson = .ok () ∧
      Decode.forEach Decode.checkCoreUsage (arrayOr s.cpu.toJson (lit "per_core_usage_percent")) = .ok ()
  status : collectorState s (lit "cpu") = some (lit "ok") ↔
    ∃ now, cpuSample g = some now ∧ Steady now before
  absent : cpuSample g = none →
    s.cpu = default ∧ s.telemetry.cpuIds = [] ∧ c'.cpuPrevious = []

theorem percentage_exact {n : ℚ} (h0 : 0 ≤ n) (h100 : n ≤ 100) :
    Decode.percentage ((some n).filter Double.isFinite) = true := by
  have hzero : (Double.ofInt64 0 : ℚ) = 0 := zero_rat
  have hhundred : (Double.ofInt64 100 : ℚ) = 100 := rfl
  have hneg : Decode.negative n = false := by
    rw [Decode.negative, hzero]
    exact decide_eq_false (not_lt.mpr h0)
  have habove : Decode.above100 n = false := by
    rw [Decode.above100, hhundred]
    exact decide_eq_false (not_lt.mpr h100)
  have hfinite : Double.isFinite n = true := rfl
  simp only [Option.filter, hfinite, ↓reduceIte, Decode.percentage, Option.any_some, hneg, habove,
    Bool.not_false, Bool.and_self]

/-- Aligned cores with percentages pass the checks on the CPU. -/
theorem cpu_checked {m : CPUMetrics ℚ} (hcores : m.coreCount.toNat = m.perCoreUsagePercent.length)
    (hle : m.perCoreUsagePercent.length ≤ 65536)
    (htotal : 0 ≤ m.totalUsagePercent ∧ m.totalUsagePercent ≤ 100)
    (husages : ∀ usage ∈ m.perCoreUsagePercent, 0 ≤ usage ∧ usage ≤ 100) :
    Decode.checkTopology m.toJson = .ok () ∧ Decode.checkTotalUsage m.toJson = .ok () ∧
      Decode.forEach Decode.checkCoreUsage (arrayOr m.toJson (lit "per_core_usage_percent")) = .ok () := by
  have h1 : Access.uint m.toJson (lit "core_count") = some m.coreCount.toUInt64 := rfl
  have h2 : m.toJson.field (lit "per_core_usage_percent") =
      some (.array (m.perCoreUsagePercent.map .double)) := rfl
  have h3 : Access.number m.toJson (lit "total_usage_percent") =
      (some m.totalUsagePercent).filter Double.isFinite := rfl
  have h4 : arrayOr m.toJson (lit "per_core_usage_percent") = m.perCoreUsagePercent.map .double := rfl
  refine ⟨?_, ?_, ?_⟩
  · have hcount : m.coreCount.toUInt64.toNat = m.perCoreUsagePercent.length := by
      rw [UInt32.toNat_toUInt64, hcores]
    rw [Decode.checkTopology, Decode.require_ok, h1, h2]
    simp [hcount, hle, JSONValue.isArray, JSONValue.size]
  · rw [Decode.checkTotalUsage, Decode.require_ok, h3]
    exact percentage_exact htotal.1 htotal.2
  · rw [Decode.forEach_ok, h4]
    intro v hv
    obtain ⟨usage, husage, rfl⟩ := List.mem_map.mp hv
    obtain ⟨h0, h100⟩ := husages usage husage
    rw [Decode.checkCoreUsage, Decode.require_ok]
    exact percentage_exact h0 h100

/-! ## The section of a sample -/

section

variable {before now cores : CpuSample}

/-- The number of a core fits its type. -/
theorem toNat_id {x : Int} (h : 0 ≤ x ∧ x < 2 ^ 31) : ((UInt32.ofNat x.toNat).toNat : Int) = x := by
  have hmod : x.toNat % 2 ^ 32 = x.toNat := Nat.mod_eq_of_lt (by omega)
  rw [UInt32.toNat_ofNat', hmod]
  exact Int.toNat_of_nonneg h.1

theorem length_cores (hsorted : (cores.map Prod.fst).Pairwise (· < ·))
    (hcores : ∀ e ∈ cores, 0 ≤ e.1 ∧ e.1 < 2 ^ 31) : cores.length ≤ 2 ^ 31 := by
  have hrange : ∀ x ∈ cores.map Prod.fst, (0 : Int) ≤ x ∧ x < 2 ^ 31 := by
    intro x hx
    obtain ⟨e, he, rfl⟩ := List.mem_map.mp hx
    exact hcores e he
  have hle := length_le_of_ascending hsorted hrange
  rwa [List.length_map] at hle

theorem ids_ascending (hsorted : (cores.map Prod.fst).Pairwise (· < ·))
    (hcores : ∀ e ∈ cores, 0 ≤ e.1 ∧ e.1 < 2 ^ 31) :
    (cores.map fun e => UInt32.ofNat e.1.toNat).Pairwise (· < ·) := by
  rw [List.pairwise_map]
  refine (List.pairwise_map.mp hsorted).imp_of_mem fun he he' hlt => ?_
  have h1 := toNat_id (hcores _ he)
  have h2 := toNat_id (hcores _ he')
  rw [UInt32.lt_iff_toNat_lt]
  omega

/-- Each number stands with the percentage of its core. -/
theorem usages_named (hcores : ∀ e ∈ cores, 0 ≤ e.1 ∧ e.1 < 2 ^ 31) (hmem : cores ⊆ now) :
    List.Forall₂ (fun (id : UInt32) usage => ∃ times, ((id.toNat : Int), times) ∈ now ∧
        usage = (usageAgainst before (id.toNat, times)).getD 0)
      (cores.map fun e => UInt32.ofNat e.1.toNat)
      (cores.map fun e => (usageAgainst before e).getD (zero : ℚ)) := by
  rw [List.forall₂_map_left_iff, List.forall₂_map_right_iff]
  refine List.forall₂_same.mpr fun e he => ⟨e.2, ?_, ?_⟩
  · rw [toNat_id (hcores e he)]
    exact hmem he
  · rw [toNat_id (hcores e he), zero_rat]

theorem usages_range :
    ∀ usage ∈ cores.map fun e => (usageAgainst before e).getD (zero : ℚ), 0 ≤ usage ∧ usage ≤ 100 := by
  intro usage hu
  obtain ⟨e, -, rfl⟩ := List.mem_map.mp hu
  rw [zero_rat]
  exact usageAgainst_range _ _

theorem steady_iff :
    (now.all fun e => (usageAgainst before e).isSome) = true ↔ Steady now before := by
  simp only [List.all_eq_true, usageAgainst_isSome]
  rfl

/-- The state that is published of a sample. -/
theorem state_ok_iff {all empty : Bool} :
    (if all = true then lit "ok" else if empty = true then lit "warming_up" else lit "partial") =
      lit "ok" ↔ all = true := by
  cases all <;> cases empty <;> decide

end

theorem cpu_section_absent (c : MetricsCollector ℚ) {g : Generation} (h : cpuSample g = none) :
    CpuSection c.cpuPrevious g (c.collect g).1 (c.collect g).2 := by
  obtain ⟨hvalue, herror, hsample⟩ := cpu_none h (c.timed g)
  have hcpu : (c.collect g).1.cpu = default := congrArg Prod.fst hvalue
  have hids : (c.collect g).1.telemetry.cpuIds = [] := congrArg Prod.snd hvalue
  have hrange : (0 : ℚ) ≤ zero ∧ (zero : ℚ) ≤ 100 := by rw [zero_rat]; norm_num
  have hnil : ∀ usage ∈ ([] : List ℚ), 0 ≤ usage ∧ usage ≤ 100 := List.forall_mem_nil _
  constructor
  · rw [hcpu]
    rfl
  · rw [hcpu, hids]
    rfl
  · rw [hids]
    exact List.Pairwise.nil
  · rw [hcpu, hids]
    exact List.Forall₂.nil
  · exact fun now hn => by cases hn.symm.trans h
  · rw [hcpu]
    exact hrange
  · rw [hcpu]
    exact hnil
  · intro _
    rw [hcpu]
    exact cpu_checked rfl (Nat.zero_le _) hrange hnil
  · rw [(collect_states c g).cpu, status]
    obtain ⟨e, he⟩ := Option.isSome_iff_exists.mp herror
    rw [he]
    refine ⟨fun hok => absurd (Option.some.inj hok).symm ok_ne, ?_⟩
    rintro ⟨now, hn, -⟩
    cases hn.symm.trans h
  · exact fun _ => ⟨hcpu, hids, hsample⟩

theorem cpu_section_sampled (c : MetricsCollector ℚ) {g : Generation} {now : CpuSample}
    (h : cpuSample g = some now) : CpuSection c.cpuPrevious g (c.collect g).1 (c.collect g).2 := by
  obtain ⟨times, cores, rfl, hsorted, hcores⟩ := cpuSample_cons h
  have hsome := cpu_some h (fun e he => (hcores e he).1) (c.timed g)
  have hcpu : (c.collect g).1.cpu = ((c.timed g).cpu g).1.value.1 := rfl
  have hids : (c.collect g).1.telemetry.cpuIds = ((c.timed g).cpu g).1.value.2 := rfl
  rw [hsome] at hcpu hids
  have hcount : (c.collect g).1.cpu.coreCount.toNat = (c.collect g).1.cpu.perCoreUsagePercent.length := by
    rw [hcpu, List.length_map]
    have hlength := length_cores hsorted hcores
    have hmod : cores.length % 2 ^ 32 = cores.length := Nat.mod_eq_of_lt (by omega)
    exact UInt32.toNat_ofNat'.trans hmod
  have hidsCount : (c.collect g).1.telemetry.cpuIds.length =
      (c.collect g).1.cpu.perCoreUsagePercent.length := by
    rw [hcpu, hids, List.length_map, List.length_map]
  have htotal : 0 ≤ (c.collect g).1.cpu.totalUsagePercent ∧ (c.collect g).1.cpu.totalUsagePercent ≤ 100 := by
    rw [hcpu]
    dsimp only
    rw [zero_rat]
    exact usageAgainst_range _ _
  have husages : ∀ usage ∈ (c.collect g).1.cpu.perCoreUsagePercent, 0 ≤ usage ∧ usage ≤ 100 := by
    rw [hcpu]
    exact usages_range
  constructor
  · exact hcount
  · exact hidsCount
  · rw [hids]
    exact ids_ascending hsorted hcores
  · rw [hcpu, hids]
    refine (usages_named hcores (List.subset_cons_self (-1, times) cores)).imp fun id usage hnamed => ?_
    obtain ⟨own, hmem, husage⟩ := hnamed
    exact ⟨_, own, h, hmem, husage⟩
  · intro now hn e he hne
    obtain rfl := Option.some.inj (h.symm.trans hn)
    rcases List.mem_cons.mp he with rfl | he
    · exact absurd rfl hne
    · exact ⟨_, hids ▸ List.mem_map_of_mem he, toNat_id (hcores e he)⟩
  · exact htotal
  · exact husages
  · exact fun hle => cpu_checked hcount (hidsCount ▸ hle) htotal husages
  · rw [(collect_states c g).cpu, hsome, h]
    simp only [Option.some.injEq, exists_eq_left']
    exact state_ok_iff.trans steady_iff
  · exact fun hnone => by cases h.symm.trans hnone

/-- The sections of a collector with that baseline. -/
theorem cpu_section (c : MetricsCollector ℚ) (g : Generation) :
    CpuSection c.cpuPrevious g (c.collect g).1 (c.collect g).2 := by
  cases h : cpuSample g with
  | none => exact cpu_section_absent c h
  | some now => exact cpu_section_sampled c h

/-- In every run, the section of a generation is judged against the generation before. -/
theorem cpu_topology {config : ServerConfig} {source : LinuxSource} {clockTicks pageSize : Int64}
    {hostname : Bytes} {c₀ : MetricsCollector ℚ}
    (hinit : init config source clockTicks pageSize hostname = some c₀) (gs : List Generation)
    (g : Generation) :
    CpuSection (cpuBaseline gs) g ((run c₀ gs).collect g).1 ((run c₀ gs).collect g).2 := by
  have hempty : c₀.cpuPrevious = [] := by
    unfold init at hinit
    split at hinit
    · obtain rfl := Option.some.inj hinit
      rfl
    · cases hinit
  have hsection := cpu_section (run c₀ gs) g
  rwa [cpuPrevious_run hempty gs] at hsection

/-- A generation in which the aggregate and core 2 have so many ticks, half of them idle. -/
def ticking (now : TimePoint) (ticks : String) : Generation :=
  { source :=
      { proc := fun path =>
          if path = lit "stat" then
            .ok (lit "cpu " ++ lit ticks ++ lit " 0 0 " ++ lit ticks ++ lit " 0 0 0 0\ncpu2 " ++
              lit ticks ++ lit " 0 0 " ++ lit ticks ++ lit " 0 0 0 0\n")
          else .error 2
        sys := fun _ => .error 2
        cgroup := fun _ => .error 2
        pids := .error 13
        filesystem := .error 5
        cgroupIdentity := []
        message := fun _ => [] }
    now }

theorem cpu_topology_half :
    CpuSection (cpuBaseline [ticking epoch "5"]) (ticking twoSeconds "9")
        ((run watching [ticking epoch "5"]).collect (ticking twoSeconds "9")).1
        ((run watching [ticking epoch "5"]).collect (ticking twoSeconds "9")).2 ∧
      ((run watching [ticking epoch "5"]).collect (ticking twoSeconds "9")).1.telemetry.cpuIds = [2] ∧
      ((run watching [ticking epoch "5"]).collect
        (ticking twoSeconds "9")).1.cpu.perCoreUsagePercent = [50] := by
  have hinit : init {} (ticking epoch "5").source 100 4096 [] = some watching := rfl
  exact ⟨cpu_topology hinit [ticking epoch "5"] (ticking twoSeconds "9"), by decide +kernel,
    by decide +kernel⟩

end MetricsCollector
end WebHtop.Server.Collectors
