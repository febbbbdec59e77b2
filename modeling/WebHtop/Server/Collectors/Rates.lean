import WebHtop.Server.Collectors.ProcessRows

/-!
# Rates over a run

A collector keeps a baseline for each section and one time for all of them, and every
generation overwrites the lot. What it has sampled is a function of the generation alone, so
after any run the baselines are those of the last generation, and a rate of the next one
compares these two. Arithmetic is exact here.
-/

namespace WebHtop.Server.Collectors.MetricsCollector

open WebHtop.Lib WebHtop.Common

/-! ## What a generation samples -/

def interfaceOf (g : Generation) (config : ServerConfig) (line : Bytes) : Option InterfaceRow :=
  match interfaceLine g config line with
  | .row r => some r
  | _ => none

def diskOf (line : Bytes) : Option DiskRow :=
  match diskLine line with
  | .row r => some r
  | _ => none

/-- The interfaces that a generation samples. -/
def interfaceRows (g : Generation) (config : ServerConfig) : List InterfaceRow :=
  match g.source.proc (lit "net/dev") with
  | .error _ => []
  | .ok text => (Istream.lines text).filterMap (interfaceOf g config)

/-- The disks that a generation samples. -/
def diskRows (g : Generation) : List DiskRow :=
  match g.source.proc (lit "diskstats") with
  | .error _ => []
  | .ok text => (Istream.lines text).filterMap diskOf

/-- A counter of the control group that a generation samples. -/
def cgroupCounter (g : Generation) (key : Bytes) : Option UInt64 :=
  if g.source.cgroupIdentity = [] then none
  else
    ((g.source.cgroup (lit "cpu.stat")).toOption.map keyValues).bind fun values => values.get key

def InterfaceRow.rx (r : InterfaceRow) : UInt64 := r.fields.getD 0 0

def InterfaceRow.tx (r : InterfaceRow) : UInt64 := r.fields.getD 8 0

def InterfaceRow.baseline (r : InterfaceRow) : Bytes × NetSample :=
  (r.name, { identity := r.identity, rx := r.rx, tx := r.tx })

def DiskRow.baseline (r : DiskRow) : Bytes × DiskCounters := (r.key, r.counters)

section

variable {D : Type} [Arithmetic D]

/-- The loop over the lines of a file: a line that is a row adds its metrics and its baseline, and
others change neither. -/
theorem foldl_rows {L R M V : Type} {step : L → Bytes → L} {rowOf : Bytes → Option R}
    {metrics : R → M} {baseline : R → Bytes × V} (out : L → List M) (next : L → Table Bytes V)
    (hnone : ∀ l line, rowOf line = none →
      out (step l line) = out l ∧ next (step l line) = next l)
    (hsome : ∀ l line r, rowOf line = some r → out (step l line) = out l ++ [metrics r] ∧
      next (step l line) = (next l).assign (baseline r).1 (baseline r).2)
    (lines : List Bytes) (l : L) :
    out (lines.foldl step l) = out l ++ (lines.filterMap rowOf).map metrics ∧
      next (lines.foldl step l) = (next l).assignAll ((lines.filterMap rowOf).map baseline) := by
  induction lines generalizing l with
  | nil => exact ⟨(List.append_nil _).symm, rfl⟩
  | cons line lines ih =>
    obtain ⟨hout, hnext⟩ := ih (step l line)
    rw [List.foldl_cons, hout, hnext]
    cases hrow : rowOf line with
    | none =>
      obtain ⟨ho, hn⟩ := hnone l line hrow
      rw [List.filterMap_cons_none hrow, ho, hn]
      exact ⟨rfl, rfl⟩
    | some r =>
      obtain ⟨ho, hn⟩ := hsome l line r hrow
      rw [List.filterMap_cons_some hrow, ho, hn, List.append_assoc]
      exact ⟨rfl, rfl⟩

theorem foldl_networkLine (g : Generation) (c : MetricsCollector D) (lines : List Bytes)
    (l : NetworkLoop D) :
    let rows := lines.filterMap (interfaceOf g c.config)
    let l' := lines.foldl (networkLine g c) l
    l'.interfaces = l.interfaces ++ rows.map c.interfaceMetrics ∧
      l'.next = l.next.assignAll (rows.map InterfaceRow.baseline) := by
  apply foldl_rows NetworkLoop.interfaces NetworkLoop.next
  · intro l line hnone
    unfold interfaceOf at hnone
    unfold networkLine
    cases hline : interfaceLine g c.config line with
    | skipped => exact ⟨rfl, rfl⟩
    | malformed => exact ⟨rfl, rfl⟩
    | row r =>
      rw [hline] at hnone
      cases hnone
  · intro l line r hsome
    unfold interfaceOf at hsome
    unfold networkLine
    cases hline : interfaceLine g c.config line with
    | skipped =>
      rw [hline] at hsome
      cases hsome
    | malformed =>
      rw [hline] at hsome
      cases hsome
    | row r' =>
      rw [hline] at hsome
      obtain rfl := Option.some.inj hsome
      exact ⟨rfl, rfl⟩

theorem network_spec (g : Generation) (c : MetricsCollector D) :
    (c.network g).1.value.2 = (interfaceRows g c.config).map c.interfaceMetrics ∧
      (c.network g).2 = Table.assignAll [] ((interfaceRows g c.config).map InterfaceRow.baseline) := by
  unfold network interfaceRows
  cases g.source.proc (lit "net/dev") with
  | error e => exact ⟨rfl, rfl⟩
  | ok text => exact foldl_networkLine g c (Istream.lines text) _

theorem foldl_diskStep (c : MetricsCollector D) (lines : List Bytes) (l : DiskLoop D) :
    let rows := lines.filterMap diskOf
    let l' := lines.foldl c.diskStep l
    l'.disks = l.disks ++ rows.map c.diskMetrics ∧
      l'.next = l.next.assignAll (rows.map DiskRow.baseline) := by
  apply foldl_rows DiskLoop.disks DiskLoop.next
  · intro l line hnone
    unfold diskOf at hnone
    unfold diskStep
    cases hline : diskLine line with
    | skipped => exact ⟨rfl, rfl⟩
    | malformed => exact ⟨rfl, rfl⟩
    | row r =>
      rw [hline] at hnone
      cases hnone
  · intro l line r hsome
    unfold diskOf at hsome
    unfold diskStep
    cases hline : diskLine line with
    | skipped =>
      rw [hline] at hsome
      cases hsome
    | malformed =>
      rw [hline] at hsome
      cases hsome
    | row r' =>
      rw [hline] at hsome
      obtain rfl := Option.some.inj hsome
      exact ⟨rfl, rfl⟩

theorem disk_spec (g : Generation) (c : MetricsCollector D) :
    (c.disk g).1.value = (diskRows g).map c.diskMetrics ∧
      (c.disk g).2 = Table.assignAll [] ((diskRows g).map DiskRow.baseline) := by
  unfold disk diskRows
  cases g.source.proc (lit "diskstats") with
  | error e => exact ⟨rfl, rfl⟩
  | ok text => exact foldl_diskStep c (Istream.lines text) _

end

/-! ## Exact rates -/

/-- The growth of a counter in a second, between two generations. -/
def perSecond (g₀ g : Generation) (counter : UInt64 × UInt64) : ℚ :=
  ((counter.2.toNat : ℚ) - counter.1.toNat) / (((g.now.val : ℚ) - g₀.now.val) / 1000000000)

/-- `rate` is there if and only if the generation before has sampled the counters, none of
them decreased and time went on; and then it is `scale` of the sum of their rates. `Sampled`
has, for each counter, its value in that generation and its value now. -/
def IsRate (rate : Option ℚ) (previous : Option Generation) (g : Generation) (scale : ℚ → ℚ)
    (Sampled : Generation → List (UInt64 × UInt64) → Prop) : Prop :=
  ∀ x, rate = some x ↔ ∃ g₀ counters, previous = some g₀ ∧ Sampled g₀ counters ∧
    (∀ e ∈ counters, e.1 ≤ e.2) ∧ g₀.now.val < g.now.val ∧
      x = scale (counters.map (perSecond g₀ g)).sum

/-- The time base of a generation. -/
def secondsSince (previous : Option Generation) (g : Generation) : ℚ :=
  (previous.map fun g₀ => ((g.now.val : ℚ) - g₀.now.val) / 1000000000).getD 0

/-- The sum of the rates of some counters. -/
def counterRates (counters : List (UInt64 × UInt64)) (seconds : ℚ) : Option ℚ :=
  if counters.all (fun e => decide (e.1 ≤ e.2)) ∧ 0 < seconds then
    some (counters.map fun e => ((e.2.toNat : ℚ) - e.1.toNat) / seconds).sum
  else none

theorem all_le {counters : List (UInt64 × UInt64)} :
    counters.all (fun e => decide (e.1 ≤ e.2)) = true ↔ ∀ e ∈ counters, e.1 ≤ e.2 := by
  simp only [List.all_eq_true, decide_eq_true_eq]

theorem counterRate_eq (now before : UInt64) (seconds : ℚ) :
    counterRate now before seconds = counterRates [(before, now)] seconds := by
  have hguard : (now < before ∨ Arithmetic.le seconds (zero : ℚ) ∨ Double.isFinite seconds = false) ↔
      ¬ (before ≤ now ∧ 0 < seconds) := by
    have hfinite : Double.isFinite seconds = true := rfl
    have hle : Arithmetic.le seconds (zero : ℚ) = true ↔ seconds ≤ 0 := by
      rw [zero_rat]
      exact decide_eq_true_iff
    rw [hle, hfinite, not_and_or, UInt64.not_le, not_lt]
    simp
  unfold counterRate counterRates
  simp only [hguard, List.all_cons, List.all_nil, Bool.and_true, decide_eq_true_eq, ite_not,
    List.map_cons, List.map_nil, List.sum_cons, List.sum_nil, add_zero]
  split
  · rename_i h
    have hsub : ((now - before).toNat : ℚ) = (now.toNat : ℚ) - before.toNat := by
      rw [UInt64.toNat_sub_of_le _ _ h.1, Nat.cast_sub (UInt64.le_iff_toNat_le.mp h.1)]
    rw [← hsub]
    rfl
  · rfl

theorem counterRates_two (a b : UInt64 × UInt64) (seconds : ℚ) :
    ((counterRates [a] seconds).bind fun x => (counterRates [b] seconds).map fun y => x + y) =
      counterRates [a, b] seconds := by
  unfold counterRates
  simp only [List.all_cons, List.all_nil, Bool.and_true, Bool.and_eq_true, decide_eq_true_eq,
    List.map_cons, List.map_nil, List.sum_cons, List.sum_nil, add_zero]
  by_cases ha : a.1 ≤ a.2 <;> by_cases hb : b.1 ≤ b.2 <;> by_cases hs : 0 < seconds <;>
    simp [ha, hb, hs]

theorem isRate_of {rate : Option ℚ} {previous : Option Generation} {g : Generation}
    {scale : ℚ → ℚ} {Sampled : Generation → List (UInt64 × UInt64) → Prop}
    (baseline : Option (List (UInt64 × UInt64)))
    (hrate : rate =
      (baseline.bind fun counters => counterRates counters (secondsSince previous g)).map scale)
    (hbaseline : ∀ counters, baseline = some counters ↔
      ∃ g₀, previous = some g₀ ∧ Sampled g₀ counters) :
    IsRate rate previous g scale Sampled := by
  intro x
  rw [hrate, Option.map_eq_some_iff]
  constructor
  · rintro ⟨y, hy, rfl⟩
    obtain ⟨counters, hb, hy⟩ := Option.bind_eq_some_iff.mp hy
    obtain ⟨g₀, rfl, hs⟩ := (hbaseline counters).mp hb
    unfold counterRates at hy
    split at hy
    · rename_i hguard
      have hpos : 0 < (g.now.val : ℚ) - g₀.now.val := by
        have := hguard.2
        simp only [secondsSince, Option.map_some, Option.getD_some] at this
        linarith [(div_pos_iff_of_pos_right (by norm_num : (0 : ℚ) < 1000000000)).mp this]
      refine ⟨g₀, counters, rfl, hs, all_le.mp hguard.1, ?_, ?_⟩
      · exact_mod_cast sub_pos.mp hpos
      · exact congrArg scale (Option.some.inj hy).symm
    · cases hy
  · rintro ⟨g₀, counters, rfl, hs, hle, hlt, rfl⟩
    have hpos : 0 < secondsSince (some g₀) g := by
      have : (g₀.now.val : ℚ) < g.now.val := by exact_mod_cast hlt
      simp only [secondsSince, Option.map_some, Option.getD_some]
      exact div_pos (sub_pos.mpr this) (by norm_num)
    refine ⟨_, ?_, rfl⟩
    rw [(hbaseline counters).mpr ⟨g₀, rfl, hs⟩, Option.bind_some, counterRates,
      if_pos ⟨all_le.mpr hle, hpos⟩]
    rfl

/-! ## The baselines after a run -/

/-- The collector after the generations of a list. -/
def run (c : MetricsCollector ℚ) (gs : List Generation) : MetricsCollector ℚ :=
  gs.foldl (fun c g => (c.collect g).2) c

/-- Every baseline is the one that the last generation has sampled. -/
structure After (c₀ : MetricsCollector ℚ) (previous : Option Generation) (c : MetricsCollector ℚ) :
    Prop where
  config : c.config = c₀.config
  clockTicks : c.clockTicks = c₀.clockTicks
  pageSize : c.pageSize = c₀.pageSize
  time : c.previousTime = previous.map Generation.now
  processes : c.processesPrevious =
    (previous.map fun g => processBaseline (samples g c₀ (visited g)) []).getD []
  network : c.networkPrevious = (previous.map fun g =>
    Table.assignAll [] ((interfaceRows g c₀.config).map InterfaceRow.baseline)).getD []
  disks : c.disksPrevious =
    (previous.map fun g => Table.assignAll [] ((diskRows g).map DiskRow.baseline)).getD []
  identity : c₀.config.cgroupPath ≠ [] →
    c.cgIdentity = (previous.map fun g => g.source.cgroupIdentity).getD []
  usage : c₀.config.cgroupPath ≠ [] →
    c.cgUsage = previous.bind fun g => cgroupCounter g (lit "usage_usec")
  throttled : c₀.config.cgroupPath ≠ [] →
    c.cgThrottled = previous.bind fun g => cgroupCounter g (lit "throttled_usec")

theorem samples_congr {c c' : MetricsCollector ℚ} (h : c.pageSize = c'.pageSize) (g : Generation)
    (pids : List Int32) : samples g c pids = samples g c' pids := by
  have hvisit : ∀ pid, visit g c pid = visit g c' pid := by
    intro pid
    unfold visit
    rw [h]
  unfold samples
  simp only [hvisit]

/-- The baseline that the section leaves. -/
theorem processes_next (g : Generation) (c : MetricsCollector ℚ) (totalBytes : UInt64) :
    (c.processes g totalBytes).2 = processBaseline (samples g c (visited g)) [] := by
  unfold processes visited
  cases g.source.pids with
  | error e => rfl
  | ok pids => exact (visitAll_spec g c totalBytes 0 pids.val {}).2.2

theorem cgroup_next (g : Generation) (c : MetricsCollector ℚ) :
    (c.cgroup g).2 =
      { identity := g.source.cgroupIdentity
        usage := cgroupCounter g (lit "usage_usec")
        throttled := cgroupCounter g (lit "throttled_usec") } := by
  unfold cgroup cgroupCounter
  by_cases hid : g.source.cgroupIdentity = []
  · simp only [hid, ↓reduceIte]
  · simp only [hid, ↓reduceIte]

/-- One generation overwrites every baseline. -/
theorem after_collect {c₀ c : MetricsCollector ℚ} {previous : Option Generation}
    (h : After c₀ previous c) (g : Generation) : After c₀ (some g) (c.collect g).2 := by
  have htimed : (c.timed g).pageSize = c₀.pageSize := h.pageSize
  have hconfig : (c.timed g).config = c₀.config := h.config
  have hcgroup : c₀.config.cgroupPath ≠ [] →
      (if (c.timed g).config.cgroupPath ≠ [] then some ((c.timed g).cgroup g) else none) =
        some ((c.timed g).cgroup g) := by
    intro hpath
    rw [hconfig, if_pos hpath]
  refine
    { config := h.config, clockTicks := h.clockTicks, pageSize := h.pageSize, time := rfl
      processes := ?_, network := ?_, disks := ?_, identity := ?_, usage := ?_, throttled := ?_ }
  · exact (processes_next g (c.timed g) _).trans
      (congrArg (processBaseline · []) (samples_congr htimed g (visited g)))
  · refine (network_spec g (c.timed g)).2.trans ?_
    rw [hconfig]
    rfl
  · exact (disk_spec g (c.timed g)).2
  · intro hpath
    show ((if (c.timed g).config.cgroupPath ≠ [] then some ((c.timed g).cgroup g) else none).map
      fun o => o.2.identity).getD _ = _
    rw [hcgroup hpath, Option.map_some, Option.getD_some, cgroup_next]
    rfl
  · intro hpath
    show ((if (c.timed g).config.cgroupPath ≠ [] then some ((c.timed g).cgroup g) else none).map
      fun o => o.2.usage).getD _ = _
    rw [hcgroup hpath, Option.map_some, Option.getD_some, cgroup_next]
    rfl
  · intro hpath
    show ((if (c.timed g).config.cgroupPath ≠ [] then some ((c.timed g).cgroup g) else none).map
      fun o => o.2.throttled).getD _ = _
    rw [hcgroup hpath, Option.map_some, Option.getD_some, cgroup_next]
    rfl

theorem after_init {config : ServerConfig} {source : LinuxSource} {clockTicks pageSize : Int64}
    {hostname : Bytes} {c₀ : MetricsCollector ℚ}
    (hc : init config source clockTicks pageSize hostname = some c₀) : After c₀ none c₀ := by
  unfold init at hc
  split at hc
  · obtain rfl := Option.some.inj hc
    exact
      { config := rfl, clockTicks := rfl, pageSize := rfl, time := rfl, processes := rfl
        network := rfl, disks := rfl, identity := fun _ => rfl, usage := fun _ => rfl
        throttled := fun _ => rfl }
  · cases hc

/-- No baseline is older than the last generation. -/
theorem after_run {c₀ : MetricsCollector ℚ} (h : After c₀ none c₀) (gs : List Generation) :
    After c₀ gs.getLast? (run c₀ gs) := by
  induction gs using List.reverseRecOn with
  | nil => exact h
  | append_singleton gs g ih =>
    rw [List.getLast?_append, List.getLast?_singleton, Option.some_or]
    unfold run at ih ⊢
    rw [List.foldl_append]
    exact after_collect ih g

/-! ## The rates of a generation -/

/-- The entities of a generation have distinct keys. -/
structure Distinct (c₀ : MetricsCollector ℚ) (g : Generation) : Prop where
  processes : (visited g).Nodup
  interfaces : ((interfaceRows g c₀.config).map InterfaceRow.name).Nodup
  disks : ((diskRows g).map DiskRow.key).Nodup

/-- The share of a process against the record of the same process. -/
structure ProcessRates (c₀ : MetricsCollector ℚ) (previous : Option Generation) (g : Generation)
    (row : ProcessInfo ℚ) (p : ProcessSample) : Prop where
  starttime : row.starttimeTicks = p.starttime
  cpu : IsRate (if row.cpuValid then some row.cpuPercent else none) previous g
    (fun rate => rate * 100 / c₀.clockTicks.toInt) fun g₀ counters =>
      ∃ p₀, (row.pid, p₀) ∈ samples g₀ c₀ (visited g₀) ∧ p₀.starttime = p.starttime ∧
        counters = [(p₀.ticks, p.ticks)]

/-- The rates of an interface against the interface of that name and identity. -/
structure InterfaceRates (c₀ : MetricsCollector ℚ) (previous : Option Generation) (g : Generation)
    (r : InterfaceRow) (m : InterfaceMetrics ℚ) : Prop where
  name : m.name = r.name
  rx : IsRate m.rxBytesPerSecond previous g id fun g₀ counters =>
    ∃ r₀ ∈ interfaceRows g₀ c₀.config, r₀.name = r.name ∧ r₀.identity = r.identity ∧
      counters = [(r₀.rx, r.rx)]
  tx : IsRate m.txBytesPerSecond previous g id fun g₀ counters =>
    ∃ r₀ ∈ interfaceRows g₀ c₀.config, r₀.name = r.name ∧ r₀.identity = r.identity ∧
      counters = [(r₀.tx, r.tx)]

/-- The counters of a disk in the generation before, and now. -/
def DiskSampled (r : DiskRow) (kept : List (DiskCounters → UInt64)) (g₀ : Generation)
    (counters : List (UInt64 × UInt64)) : Prop :=
  ∃ r₀ ∈ diskRows g₀, r₀.key = r.key ∧
    counters = kept.map fun counter => (counter r₀.counters, counter r.counters)

/-- The rates of a disk against the disk of that key: sectors of 512 bytes, and milliseconds
of busy time. -/
structure DiskRates (previous : Option Generation) (g : Generation) (r : DiskRow)
    (m : DiskIoMetrics ℚ) : Prop where
  device : m.device = r.name
  read : IsRate m.readBytesPerSecond previous g (fun rate => rate * 512)
    (DiskSampled r [DiskCounters.sectorsRead])
  write : IsRate m.writeBytesPerSecond previous g (fun rate => rate * 512)
    (DiskSampled r [DiskCounters.sectorsWritten])
  iops : IsRate m.iops previous g id (DiskSampled r [DiskCounters.reads, DiskCounters.writes])
  busy : IsRate m.busyPercent previous g (fun rate => min 100 (rate / 10))
    (DiskSampled r [DiskCounters.busy])

/-- A counter of the control group, in the same group both times. -/
def CgroupSampled (c₀ : MetricsCollector ℚ) (g : Generation) (key : Bytes) (g₀ : Generation)
    (counters : List (UInt64 × UInt64)) : Prop :=
  c₀.config.cgroupPath ≠ [] ∧ g₀.source.cgroupIdentity = g.source.cgroupIdentity ∧
    ∃ before now, cgroupCounter g₀ key = some before ∧ cgroupCounter g key = some now ∧
      counters = [(before, now)]

/-- The rates of the control group, of counters in microseconds. -/
structure CgroupRates (c₀ : MetricsCollector ℚ) (previous : Option Generation) (g : Generation)
    (m : CgroupMetrics ℚ) : Prop where
  cpu : IsRate m.cpuPercent previous g (fun rate => rate / 10000)
    (CgroupSampled c₀ g (lit "usage_usec"))
  throttled : IsRate m.throttledMsPerSecond previous g (fun rate => rate / 1000)
    (CgroupSampled c₀ g (lit "throttled_usec"))

/-- Every rate of a snapshot compares this generation with the one before. -/
structure RatesExact (c₀ : MetricsCollector ℚ) (previous : Option Generation) (g : Generation)
    (s : SystemSnapshot ℚ) : Prop where
  processes : ∀ row ∈ s.process.processes, ∃ p, (row.pid, p) ∈ samples g c₀ (visited g) ∧
    ProcessRates c₀ previous g row p
  interfaces : List.Forall₂ (InterfaceRates c₀ previous g) (interfaceRows g c₀.config)
    s.telemetry.interfaces
  disks : List.Forall₂ (DiskRates previous g) (diskRows g) s.telemetry.disks
  cgroup : CgroupRates c₀ previous g s.telemetry.cgroup

theorem timed_seconds {c₀ c : MetricsCollector ℚ} {previous : Option Generation}
    (h : After c₀ previous c) (g : Generation) : (c.timed g).seconds = secondsSince previous g := by
  have htimed : (c.timed g).seconds =
      ((c.previousTime.map fun before => elapsed g.now before).getD zero : ℚ) := rfl
  rw [htimed, h.time, secondsSince]
  cases previous with
  | none => exact zero_rat
  | some g₀ =>
    obtain ⟨hnow, hnow'⟩ := g.now.property
    obtain ⟨hbefore, hbefore'⟩ := g₀.now.property
    have hint : (Int64.ofInt (g.now.val - g₀.now.val)).toInt = g.now.val - g₀.now.val :=
      Int64.toInt_ofInt_of_le (by omega) (by omega)
    have helapsed : (elapsed g.now g₀.now : ℚ) =
        (((Int64.ofInt (g.now.val - g₀.now.val)).toInt : Int) : ℚ) /
          (((1000000000 : Int64).toInt : Int) : ℚ) := rfl
    have hbillion : (1000000000 : Int64).toInt = 1000000000 := by decide
    simp only [Option.map_some, Option.getD_some]
    rw [helapsed, hint, hbillion]
    push_cast
    ring

section

variable {c₀ c : MetricsCollector ℚ} {previous : Option Generation} {g : Generation}

/-- What a lookup in a table of the generation before finds. -/
theorem get_baseline {κ ν : Type} [DecidableEq κ] {table : Table κ ν}
    (rows : Generation → List (κ × ν))
    (ht : table = (previous.map fun g₀ => Table.assignAll [] (rows g₀)).getD [])
    (hn : ∀ g₀, previous = some g₀ → ((rows g₀).map Prod.fst).Nodup) (k : κ) (v : ν) :
    table.get k = some v ↔ ∃ g₀, previous = some g₀ ∧ (k, v) ∈ rows g₀ := by
  subst ht
  cases previous with
  | none => simp [Table.get]
  | some g₀ =>
    rw [Option.map_some, Option.getD_some, Table.get_assignAll_nil (hn g₀ rfl)]
    simp

theorem interfaceRates (h : After c₀ previous c) (hd : ∀ g₀, previous = some g₀ → Distinct c₀ g₀)
    (r : InterfaceRow) : InterfaceRates c₀ previous g r ((c.timed g).interfaceMetrics r) := by
  have hseconds := timed_seconds h g
  have hget := get_baseline _ h.network
    (fun g₀ hg => by simpa [InterfaceRow.baseline, Function.comp_def] using (hd g₀ hg).interfaces) r.name
  -- The sample kept for that name, if it has the same identity.
  let old := (c.networkPrevious.get r.name).filter fun p => p.identity = r.identity
  have hold : ∀ sample, old = some sample ↔ ∃ g₀, previous = some g₀ ∧
      ∃ r₀ ∈ interfaceRows g₀ c₀.config, r₀.name = r.name ∧ r₀.identity = r.identity ∧
        r₀.baseline.2 = sample := by
    intro sample
    show Option.filter _ _ = _ ↔ _
    rw [Option.filter_eq_some_iff, hget]
    constructor
    · rintro ⟨⟨g₀, hg, hmem⟩, hid⟩
      obtain ⟨r₀, hr₀, heq⟩ := List.mem_map.mp hmem
      obtain ⟨hname, rfl⟩ := Prod.mk.inj heq
      exact ⟨g₀, hg, r₀, hr₀, hname, of_decide_eq_true hid, rfl⟩
    · rintro ⟨g₀, hg, r₀, hr₀, hname, hid, rfl⟩
      exact ⟨⟨g₀, hg, List.mem_map.mpr ⟨r₀, hr₀, by rw [← hname]; rfl⟩⟩, decide_eq_true hid⟩
  have hrate : ∀ (counter : NetSample → UInt64) (now : UInt64) (counterOf : InterfaceRow → UInt64),
      (∀ r₀ : InterfaceRow, counter r₀.baseline.2 = counterOf r₀) →
      IsRate (old.bind fun p => counterRate now (counter p) (c.timed g).seconds) previous g id
        fun g₀ counters => ∃ r₀ ∈ interfaceRows g₀ c₀.config, r₀.name = r.name ∧
          r₀.identity = r.identity ∧ counters = [(counterOf r₀, now)] := by
    intro counter now counterOf hcounter
    refine isRate_of (old.map fun p => [(counter p, now)]) ?_ fun counters => ?_
    · rw [hseconds]
      cases old with
      | none => rfl
      | some p => simp [counterRate_eq]
    · rw [Option.map_eq_some_iff]
      constructor
      · rintro ⟨sample, hs, rfl⟩
        obtain ⟨g₀, hg, r₀, hr₀, hname, hid, rfl⟩ := (hold sample).mp hs
        exact ⟨g₀, hg, r₀, hr₀, hname, hid, by rw [hcounter]⟩
      · rintro ⟨g₀, hg, r₀, hr₀, hname, hid, rfl⟩
        exact ⟨_, (hold _).mpr ⟨g₀, hg, r₀, hr₀, hname, hid, rfl⟩, by rw [hcounter]⟩
  exact
    { name := rfl
      rx := hrate NetSample.rx r.rx InterfaceRow.rx fun _ => rfl
      tx := hrate NetSample.tx r.tx InterfaceRow.tx fun _ => rfl }

theorem diskRates (h : After c₀ previous c) (hd : ∀ g₀, previous = some g₀ → Distinct c₀ g₀)
    (r : DiskRow) : DiskRates previous g r ((c.timed g).diskMetrics r) := by
  have hseconds := timed_seconds h g
  have hget := get_baseline _ h.disks
    (fun g₀ hg => by simpa [DiskRow.baseline, Function.comp_def] using (hd g₀ hg).disks) r.key
  have hbaseline : ∀ (kept : List (DiskCounters → UInt64)) counters,
      ((c.disksPrevious.get r.key).map fun old =>
        kept.map fun counter => (counter old, counter r.counters)) = some counters ↔
      ∃ g₀, previous = some g₀ ∧ DiskSampled r kept g₀ counters := by
    intro kept counters
    rw [Option.map_eq_some_iff]
    constructor
    · rintro ⟨old, hold, rfl⟩
      obtain ⟨g₀, hg, hmem⟩ := (hget old).mp hold
      obtain ⟨r₀, hr₀, heq⟩ := List.mem_map.mp hmem
      obtain ⟨hkey, rfl⟩ := Prod.mk.inj heq
      exact ⟨g₀, hg, r₀, hr₀, hkey, rfl⟩
    · rintro ⟨g₀, hg, r₀, hr₀, hkey, rfl⟩
      exact ⟨_, (hget _).mpr ⟨g₀, hg, List.mem_map.mpr ⟨r₀, hr₀, by rw [← hkey]; rfl⟩⟩, rfl⟩
  have hone : ∀ counter : DiskCounters → UInt64,
      ((c.disksPrevious.get r.key).bind fun old =>
        counterRate (counter r.counters) (counter old) (c.timed g).seconds) =
      ((c.disksPrevious.get r.key).map fun old => [(counter old, counter r.counters)]).bind
        fun counters => counterRates counters (secondsSince previous g) := by
    intro counter
    rw [hseconds]
    cases c.disksPrevious.get r.key with
    | none => rfl
    | some old => simp [counterRate_eq]
  have hscaled : ∀ (counter : DiskCounters → UInt64) (scale : ℚ → ℚ),
      IsRate (((c.disksPrevious.get r.key).bind fun old =>
        counterRate (counter r.counters) (counter old) (c.timed g).seconds).map scale) previous g
          scale (DiskSampled r [counter]) := by
    intro counter scale
    exact isRate_of _ (congrArg (Option.map scale) (hone counter)) (hbaseline [counter])
  refine
    { device := rfl
      read := hscaled DiskCounters.sectorsRead _
      write := hscaled DiskCounters.sectorsWritten _
      iops := isRate_of _ ?_ (hbaseline [DiskCounters.reads, DiskCounters.writes])
      busy := ?_ }
  · rw [Option.map_id_fun, id]
    show (((c.disksPrevious.get r.key).bind fun old =>
      counterRate (D := ℚ) r.counters.reads old.reads (c.timed g).seconds).bind fun a =>
        (((c.disksPrevious.get r.key).bind fun old =>
          counterRate r.counters.writes old.writes (c.timed g).seconds).map fun b => a + b)) = _
    rw [hseconds]
    cases c.disksPrevious.get r.key with
    | none => rfl
    | some old =>
      simp only [Option.bind_some, Option.map_some, counterRate_eq, counterRates_two, List.map_cons,
        List.map_nil]
  · have hmin : (fun busy : ℚ => Arithmetic.min (Arithmetic.ofInt 100)
        (Arithmetic.div busy (Arithmetic.ofInt 10))) = fun rate => min 100 (rate / 10) := by
      funext rate
      have hten : ((10 : Int64).toInt : ℚ) = 10 := rfl
      have hhundred : ((100 : Int64).toInt : ℚ) = 100 := rfl
      show (if decide (rate / ((10 : Int64).toInt : ℚ) < ((100 : Int64).toInt : ℚ)) = true then
        rate / ((10 : Int64).toInt : ℚ) else ((100 : Int64).toInt : ℚ)) = _
      rw [hten, hhundred]
      split
      · rename_i hlt
        exact (min_eq_right (of_decide_eq_true hlt).le).symm
      · rename_i hge
        exact (min_eq_left (not_lt.mp fun hlt => hge (decide_eq_true hlt))).symm
    exact hmin ▸ hscaled DiskCounters.busy _

theorem samples_sublist (g : Generation) (c : MetricsCollector ℚ) (pids : List Int32) :
    ((samples g c pids).map Prod.fst).Sublist pids := by
  induction pids with
  | nil => exact List.nil_sublist _
  | cons pid pids ih =>
    unfold samples at ih ⊢
    rw [List.filterMap_cons]
    cases (visit g c pid).sample with
    | none => exact ih.cons pid
    | some p => exact ih.cons_cons pid

theorem processRates (h : After c₀ previous c) (hd : ∀ g₀, previous = some g₀ → Distinct c₀ g₀)
    (totalBytes : UInt64) (pid : Int32) (p : ProcessSample) :
    ProcessRates c₀ previous g ((c.timed g).processRow totalBytes pid p) p := by
  have hseconds := timed_seconds h g
  have hget := get_baseline
    (fun g₀ => (samples g₀ c₀ (visited g₀)).map fun e => (e.1, (e.2.starttime, e.2.ticks)))
    h.processes
    (fun g₀ hg => by
      rw [List.map_map]
      exact (samples_sublist g₀ c₀ (visited g₀)).nodup (hd g₀ hg).processes) pid
  refine ⟨rfl, ?_⟩
  have hrow : (if ((c.timed g).processRow totalBytes pid p).cpuValid then
      some ((c.timed g).processRow totalBytes pid p).cpuPercent else none) =
        (c.timed g).processRate pid p := by
    show (if ((c.timed g).processRate pid p).isSome then
      some (((c.timed g).processRate pid p).getD zero) else none) = _
    cases (c.timed g).processRate pid p <;> rfl
  rw [hrow]
  refine isRate_of (((c.processesPrevious.get pid).filter fun old => old.1 = p.starttime).map
    fun old => [(old.2, p.ticks)]) ?_ fun counters => ?_
  · show ((c.processesPrevious.get pid).bind fun old => if old.1 = p.starttime then
      (counterRate p.ticks old.2 (c.timed g).seconds).map fun rate =>
        rate * ((100 : Int64).toInt : ℚ) / (c.clockTicks.toInt : ℚ) else none) = _
    have hhundred : ((100 : Int64).toInt : ℚ) = 100 := rfl
    rw [hseconds, hhundred, h.clockTicks]
    cases c.processesPrevious.get pid with
    | none => rfl
    | some old =>
      by_cases hstart : old.1 = p.starttime <;> simp [hstart, counterRate_eq, Option.filter]
  · rw [Option.map_eq_some_iff]
    simp only [Option.filter_eq_some_iff, hget]
    constructor
    · rintro ⟨old, ⟨⟨g₀, hg, hmem⟩, hstart⟩, rfl⟩
      obtain ⟨⟨pid₀, p₀⟩, he, heq⟩ := List.mem_map.mp hmem
      obtain ⟨rfl, rfl⟩ := Prod.mk.inj heq
      exact ⟨g₀, hg, p₀, he, of_decide_eq_true hstart, rfl⟩
    · rintro ⟨g₀, hg, p₀, he, hstart, rfl⟩
      exact ⟨(p₀.starttime, p₀.ticks), ⟨⟨g₀, hg, List.mem_map.mpr ⟨_, he, rfl⟩⟩,
        decide_eq_true hstart⟩, rfl⟩

/-- The counter that is kept, unless the group is another one or none. -/
def keptCounter (c : MetricsCollector ℚ) (g : Generation) (kept : Option UInt64) : Option UInt64 :=
  if g.source.cgroupIdentity = [] ∨ g.source.cgroupIdentity ≠ c.cgIdentity then none else kept

/-- The two rates of a group, from the counters of this generation and the kept ones. -/
theorem cgroup_value (g : Generation) (c : MetricsCollector ℚ) :
    let rate := fun key kept => (cgroupCounter g key).bind fun now =>
      (keptCounter c g kept).bind fun before => counterRate (D := ℚ) now before c.seconds
    (c.cgroup g).1.value.cpuPercent =
        (rate (lit "usage_usec") c.cgUsage).map (fun rate => rate / 10000) ∧
      (c.cgroup g).1.value.throttledMsPerSecond =
        (rate (lit "throttled_usec") c.cgThrottled).map (fun rate => rate / 1000) := by
  unfold cgroup cgroupCounter keptCounter
  by_cases hid : g.source.cgroupIdentity = []
  · simp only [hid, ↓reduceIte, true_or]
    exact ⟨rfl, rfl⟩
  · by_cases hguard : g.source.cgroupIdentity = [] ∨ g.source.cgroupIdentity ≠ c.cgIdentity
    · simp only [if_pos hguard, if_neg hid]
      exact ⟨rfl, rfl⟩
    · simp only [if_neg hguard, if_neg hid]
      exact ⟨rfl, rfl⟩

theorem cgroupRate_isRate (h : After c₀ previous c) (hpath : c₀.config.cgroupPath ≠ [])
    (key : Bytes) {kept : Option UInt64}
    (hkept : kept = previous.bind fun g₀ => cgroupCounter g₀ key) (scale : ℚ → ℚ) :
    IsRate (((cgroupCounter g key).bind fun now => (keptCounter c g kept).bind fun before =>
      counterRate now before (secondsSince previous g)).map scale) previous g scale
        (CgroupSampled c₀ g key) := by
  refine isRate_of ((cgroupCounter g key).bind fun now =>
    (keptCounter c g kept).map fun before => [(before, now)]) ?_ fun counters => ?_
  · cases cgroupCounter g key with
    | none => rfl
    | some now =>
      cases keptCounter c g kept with
      | none => rfl
      | some before => simp [counterRate_eq]
  · have hidentity := h.identity hpath
    have hnonempty : ∀ now, cgroupCounter g key = some now → g.source.cgroupIdentity ≠ [] := by
      intro now hnow hid
      rw [cgroupCounter, if_pos hid] at hnow
      cases hnow
    simp only [Option.bind_eq_some_iff, Option.map_eq_some_iff, keptCounter, hkept]
    constructor
    · rintro ⟨now, hnow, before, hbefore, rfl⟩
      split at hbefore
      · cases hbefore
      · rename_i hguard
        rw [not_or, not_not] at hguard
        obtain ⟨g₀, rfl, hg₀⟩ := Option.bind_eq_some_iff.mp hbefore
        exact ⟨g₀, rfl, hpath, (hguard.2.trans hidentity).symm, before, now, hg₀, hnow, rfl⟩
    · rintro ⟨g₀, rfl, -, hsame, before, now, hg₀, hnow, rfl⟩
      refine ⟨now, hnow, before, ?_, rfl⟩
      rw [if_neg]
      · exact hg₀
      · rw [not_or, not_not]
        exact ⟨hnonempty now hnow, (hidentity.trans hsame).symm⟩

theorem cgroupRates (h : After c₀ previous c) :
    CgroupRates c₀ previous g (c.collect g).1.telemetry.cgroup := by
  have hconfig : (c.timed g).config = c₀.config := h.config
  have hvalue : (c.collect g).1.telemetry.cgroup =
      ((if c₀.config.cgroupPath ≠ [] then some ((c.timed g).cgroup g) else none).map
        fun o => o.1.value).getD default := by
    rw [← hconfig]
    rfl
  rw [hvalue]
  by_cases hpath : c₀.config.cgroupPath = []
  · rw [if_neg (not_not.mpr hpath)]
    have hnone : ∀ (scale : ℚ → ℚ) (key : Bytes),
        IsRate none previous g scale (CgroupSampled c₀ g key) := by
      intro scale key
      refine isRate_of none rfl fun counters => ?_
      simp [CgroupSampled, hpath]
    exact ⟨hnone _ _, hnone _ _⟩
  · rw [if_pos hpath, Option.map_some, Option.getD_some]
    obtain ⟨hcpu, hthrottled⟩ := cgroup_value g (c.timed g)
    dsimp only at hcpu hthrottled
    rw [timed_seconds h g] at hcpu hthrottled
    constructor
    · rw [hcpu]
      exact cgroupRate_isRate h hpath (lit "usage_usec") (h.usage hpath) _
    · rw [hthrottled]
      exact cgroupRate_isRate h hpath (lit "throttled_usec") (h.throttled hpath) _

/-- After any run, every rate of the next generation compares it with the last generation of
the run, and with nothing else. -/
theorem rates_exact {config : ServerConfig} {source : LinuxSource} {clockTicks pageSize : Int64}
    {hostname : Bytes} {c₀ : MetricsCollector ℚ}
    (hc : init config source clockTicks pageSize hostname = some c₀) (gs : List Generation)
    (g : Generation) (hd : ∀ g₀, gs.getLast? = some g₀ → Distinct c₀ g₀) :
    RatesExact c₀ gs.getLast? g ((run c₀ gs).collect g).1 := by
  have h := after_run (after_init hc) gs
  refine ⟨fun row hrow => ?_, ?_, ?_, cgroupRates h⟩
  · obtain ⟨e, he, rfl⟩ := (processes_spec g ((run c₀ gs).timed g) _).2 row hrow
    refine ⟨e.2, ?_, processRates h hd _ e.1 e.2⟩
    rw [← samples_congr (show ((run c₀ gs).timed g).pageSize = c₀.pageSize from h.pageSize)]
    exact he
  · have hrows := (network_spec g ((run c₀ gs).timed g)).1
    rw [show ((run c₀ gs).timed g).config = c₀.config from h.config] at hrows
    show List.Forall₂ _ _ (((run c₀ gs).timed g).network g).1.value.2
    rw [hrows, List.forall₂_map_right_iff]
    exact List.forall₂_same.mpr fun r _ => interfaceRates h hd r
  · have hrows := (disk_spec g ((run c₀ gs).timed g)).1
    show List.Forall₂ _ _ (((run c₀ gs).timed g).disk g).1.value
    rw [hrows, List.forall₂_map_right_iff]
    exact List.forall₂_same.mpr fun r _ => diskRates h hd r

/-- A generation that sees one interface with that many received bytes. -/
def receiving (now : TimePoint) (rx : String) : Generation :=
  { source :=
      { proc := fun path =>
          if path = lit "net/dev" then .ok (lit "eth0: " ++ lit rx ++ lit " 1 0 0 0 0 0 0 7 1 0 0 0 0 0 0")
          else .error 2
        sys := fun _ => .error 2
        cgroup := fun _ => .error 2
        pids := .error 13
        filesystem := .error 5
        cgroupIdentity := []
        message := fun _ => [] }
    now }

def watching : MetricsCollector ℚ :=
  { config := {}, clockTicks := 100, pageSize := 4096, ticks_pos := ticks_positive
    page_pos := page_positive, bootId := [], hostname := [], seconds := zero }

def twoSeconds : TimePoint := ⟨2000000000, by decide⟩

/-- Two generations two seconds apart, 1000 bytes later. -/
theorem rates_exact_growing :
    RatesExact watching (some (receiving epoch "500")) (receiving twoSeconds "1500")
        ((run watching [receiving epoch "500"]).collect (receiving twoSeconds "1500")).1 ∧
      ((run watching [receiving epoch "500"]).collect
        (receiving twoSeconds "1500")).1.telemetry.interfaces.map
          (fun m => m.rxBytesPerSecond) = [some 500] := by
  have hinit : init {} (receiving epoch "500").source 100 4096 [] = some watching := rfl
  refine ⟨rates_exact hinit [receiving epoch "500"] _ ?_, by decide +kernel⟩
  intro g₀ hg
  obtain rfl := Option.some.inj hg
  exact ⟨List.nodup_nil, List.nodup_singleton _, List.nodup_nil⟩

end

end WebHtop.Server.Collectors.MetricsCollector
