import WebHtop.Common.Doubles
import WebHtop.Common.Models.Snapshot

/-!
# Reading back what `ToJson` builds

Every model comes back from its tree field by field. An optional rate is written as any
double but read only when finite, hence the condition on the rates.
-/

namespace WebHtop.Common

variable {D : Type} [Double D]

/-- An optional rate is absent or finite. -/
def RateFinite (rate : Option D) : Prop := ∀ d, rate = some d → Double.isFinite d = true

theorem filterMap_map_self {α β : Type} {f : α → β} {g : β → Option α}
    (h : ∀ a, g (f a) = some a) (l : List α) : (l.map f).filterMap g = l := by
  induction l with
  | nil => rfl
  | cons a l ih => rw [List.map_cons, List.filterMap_cons, h, ih]

theorem map_map_self {α β : Type} {f : α → β} {g : β → α} {P : α → Prop}
    (h : ∀ a, P a → g (f a) = a) {l : List α} (hl : ∀ a ∈ l, P a) : (l.map f).map g = l := by
  rw [List.map_map]
  conv_rhs => rw [← List.map_id l]
  exact List.map_congr_left fun a ha => h a (hl a ha)

theorem number_of_field (v : JSONValue D) (key : Bytes) {rate : Option D}
    (h : v.field key = some (makeOptional .double rate)) (hf : RateFinite rate) :
    Access.number v key = rate := by
  rw [Access.number, h]
  cases rate with
  | none => rfl
  | some d =>
      change Option.filter Double.isFinite (some d) = some d
      rw [Option.filter_some, if_pos (hf d rfl)]

omit [Double D] in
theorem uint_of_field (v : JSONValue D) (key : Bytes) {o : Option UInt64}
    (h : v.field key = some (makeOptional .uint64 o)) : Access.uint v key = o := by
  rw [Access.uint, h]
  cases o <;> rfl

/-! ## The sections -/

theorem CPUMetrics.fromJson_toJson (m : CPUMetrics D) : fromJson m.toJson = m := by
  have hcores : arrayOr m.toJson (lit "per_core_usage_percent") =
    m.perCoreUsagePercent.map .double := rfl
  have hcount : uintOr m.toJson (lit "core_count") 0 = m.coreCount.toUInt64 := rfl
  have hread := filterMap_map_self (f := JSONValue.double (D := D)) (g := JSONValue.asDouble)
    (fun _ => rfl) m.perCoreUsagePercent
  simp only [fromJson, hcores, hcount, hread, UInt32.toUInt32_toUInt64]
  rfl

theorem MemoryMetrics.fromJson_toJson (m : MemoryMetrics D) : fromJson m.toJson = m := rfl

theorem DiskMetrics.fromJson_toJson (m : DiskMetrics D) : fromJson m.toJson = m := rfl

theorem NetworkMetrics.fromJson_toJson (m : NetworkMetrics D) : fromJson m.toJson = m := rfl

theorem LoadavgMetrics.fromJson_toJson (m : LoadavgMetrics D) : fromJson m.toJson = m := rfl

/-- The state byte and the signed pid survive the widening to 64 bits. -/
theorem ProcessInfo.fromJson_toJson (p : ProcessInfo D) : fromJson p.toJson = p := by
  have hpid : int64At p.toJson (lit "pid") = some p.pid.toInt64 := rfl
  have hstate : int64At p.toJson (lit "state") = some p.state.toInt64 := rfl
  have hthreads : uintOr p.toJson (lit "thread_count") 0 = p.threadCount.toUInt64 := rfl
  simp only [fromJson, hpid, hstate, hthreads, Option.map_some, Option.getD_some,
    Int32.toInt32_toInt64, Int8.toInt8_toInt64, UInt32.toUInt32_toUInt64]
  rfl

theorem ProcessMetrics.fromJson_toJson (m : ProcessMetrics D) : fromJson m.toJson = m := by
  have hlist : arrayOr m.toJson (lit "processes") = m.processes.map ProcessInfo.toJson := rfl
  simp only [fromJson, hlist,
    map_map_self (P := fun _ => True) (fun p _ => ProcessInfo.fromJson_toJson p) fun _ _ => trivial]
  rfl

/-! ## Telemetry -/

omit [Double D] in
theorem SampleStatus.fromJson_toJson (p : SampleStatus) :
    fromJson (p.toJson : JSONValue D) = p := rfl

structure InterfaceMetrics.Finite (m : InterfaceMetrics D) : Prop where
  rx : RateFinite m.rxBytesPerSecond
  tx : RateFinite m.txBytesPerSecond

theorem InterfaceMetrics.fromJson_toJson {m : InterfaceMetrics D} (h : m.Finite) :
    fromJson m.toJson = m := by
  have hrx := number_of_field m.toJson (lit "rx_bytes_per_second") rfl h.rx
  have htx := number_of_field m.toJson (lit "tx_bytes_per_second") rfl h.tx
  simp only [fromJson, hrx, htx]
  rfl

structure DiskIoMetrics.Finite (m : DiskIoMetrics D) : Prop where
  read : RateFinite m.readBytesPerSecond
  write : RateFinite m.writeBytesPerSecond
  iops : RateFinite m.iops
  busy : RateFinite m.busyPercent

theorem DiskIoMetrics.fromJson_toJson {m : DiskIoMetrics D} (h : m.Finite) :
    fromJson m.toJson = m := by
  have h1 := number_of_field m.toJson (lit "read_bytes_per_second") rfl h.read
  have h2 := number_of_field m.toJson (lit "write_bytes_per_second") rfl h.write
  have h3 := number_of_field m.toJson (lit "iops") rfl h.iops
  have h4 := number_of_field m.toJson (lit "busy_percent") rfl h.busy
  simp only [fromJson, h1, h2, h3, h4]
  rfl

structure PressureMetrics.Finite (m : PressureMetrics D) : Prop where
  some10 : RateFinite m.someAvg10
  some60 : RateFinite m.someAvg60
  some300 : RateFinite m.someAvg300
  full10 : RateFinite m.fullAvg10

theorem PressureMetrics.fromJson_toJson {m : PressureMetrics D} (h : m.Finite) :
    fromJson m.toJson = m := by
  have h1 := number_of_field m.toJson (lit "some_avg10") rfl h.some10
  have h2 := number_of_field m.toJson (lit "some_avg60") rfl h.some60
  have h3 := number_of_field m.toJson (lit "some_avg300") rfl h.some300
  have h4 := number_of_field m.toJson (lit "full_avg10") rfl h.full10
  simp only [fromJson, h1, h2, h3, h4]
  rfl

structure CgroupMetrics.Finite (m : CgroupMetrics D) : Prop where
  quota : RateFinite m.cpuQuotaCores
  cpu : RateFinite m.cpuPercent
  throttled : RateFinite m.throttledMsPerSecond
  pressure : ∀ p ∈ m.pressure, p.Finite

theorem CgroupMetrics.fromJson_toJson {m : CgroupMetrics D} (h : m.Finite) :
    fromJson m.toJson = m := by
  have h1 := number_of_field m.toJson (lit "cpu_quota_cores") rfl h.quota
  have h2 := number_of_field m.toJson (lit "cpu_percent") rfl h.cpu
  have h3 := number_of_field m.toJson (lit "throttled_ms_per_second") rfl h.throttled
  have h4 := uint_of_field m.toJson (lit "memory_current") rfl
  have h5 := uint_of_field m.toJson (lit "memory_max") rfl
  have h6 := uint_of_field m.toJson (lit "nr_throttled") rfl
  have h7 := uint_of_field m.toJson (lit "oom_kill") rfl
  have h8 : arrayOr m.toJson (lit "pressure") = m.pressure.map PressureMetrics.toJson := rfl
  simp only [fromJson, h1, h2, h3, h4, h5, h6, h7, h8,
    map_map_self (fun _ => PressureMetrics.fromJson_toJson) h.pressure]
  rfl

structure TelemetryInfo.Finite (t : TelemetryInfo D) : Prop where
  interfaces : ∀ m ∈ t.interfaces, m.Finite
  disks : ∀ m ∈ t.disks, m.Finite
  pressure : ∀ m ∈ t.pressure, m.Finite
  cgroup : t.cgroup.Finite

omit [Double D] in
theorem TelemetryInfo.cpuId_uint64 (id : UInt32) :
    cpuId (.uint64 id.toUInt64 : JSONValue D) = some id := by
  have hle : decide (id.toUInt64.toNat ≤ 2 ^ 32 - 1) = true := by
    have := id.toNat_lt
    rw [UInt32.toNat_toUInt64, decide_eq_true_eq]
    omega
  rw [cpuId, JSONValue.asUInt64, Option.filter_some, if_pos hle, Option.map_some,
    UInt32.toUInt32_toUInt64]

theorem TelemetryInfo.fromJson_toJson {t : TelemetryInfo D} (h : t.Finite) :
    fromJson t.toJson = t := by
  have h1 : arrayOr t.toJson (lit "cpu_ids") = t.cpuIds.map fun id => .uint64 id.toUInt64 := rfl
  have h2 : arrayOr t.toJson (lit "collectors") = t.collectors.map SampleStatus.toJson := rfl
  have h3 : arrayOr t.toJson (lit "interfaces") = t.interfaces.map InterfaceMetrics.toJson := rfl
  have h4 : arrayOr t.toJson (lit "disks") = t.disks.map DiskIoMetrics.toJson := rfl
  have h5 : arrayOr t.toJson (lit "pressure") = t.pressure.map PressureMetrics.toJson := rfl
  have h6 : t.toJson.field (lit "cgroup") = some t.cgroup.toJson := rfl
  simp only [fromJson, h1, h2, h3, h4, h5, h6, Option.map_some, Option.getD_some,
    filterMap_map_self cpuId_uint64,
    map_map_self (P := fun _ => True) (fun p _ => SampleStatus.fromJson_toJson (D := D) p)
      fun _ _ => trivial,
    map_map_self (fun _ => InterfaceMetrics.fromJson_toJson) h.interfaces,
    map_map_self (fun _ => DiskIoMetrics.fromJson_toJson) h.disks,
    map_map_self (fun _ => PressureMetrics.fromJson_toJson) h.pressure,
    CgroupMetrics.fromJson_toJson h.cgroup]
  rfl

/-! ## The snapshot -/

/-- Members after those of the snapshot change nothing. -/
theorem SystemSnapshot.fromJson_members (s : SystemSnapshot D) (h : s.telemetry.Finite)
    (extra : List (Bytes × JSONValue D)) : fromJson (.object (s.members ++ extra)) = s := by
  let v : JSONValue D := .object (s.members ++ extra)
  have h1 : v.field (lit "telemetry") = some s.telemetry.toJson := rfl
  have h2 : v.field (lit "cpu") = some s.cpu.toJson := rfl
  have h3 : v.field (lit "memory") = some s.memory.toJson := rfl
  have h4 : v.field (lit "disk") = some s.disk.toJson := rfl
  have h5 : v.field (lit "network") = some s.network.toJson := rfl
  have h6 : v.field (lit "loadavg") = some s.loadavg.toJson := rfl
  have h7 : v.field (lit "process") = some s.process.toJson := rfl
  show fromJson v = s
  simp only [fromJson, h1, h2, h3, h4, h5, h6, h7, Option.map_some, Option.getD_some,
    TelemetryInfo.fromJson_toJson h, CPUMetrics.fromJson_toJson, MemoryMetrics.fromJson_toJson,
    DiskMetrics.fromJson_toJson, NetworkMetrics.fromJson_toJson, LoadavgMetrics.fromJson_toJson,
    ProcessMetrics.fromJson_toJson]
  rfl

/-- A snapshot whose optional rates are absent or finite comes back from its tree. -/
theorem snapshot_comes_back (s : SystemSnapshot D) (h : s.telemetry.Finite) :
    SystemSnapshot.fromJson s.toJson = s := by
  have := s.fromJson_members h []
  rwa [List.append_nil] at this

/-- An interface with one rate, a disk with none, and a pid and a state below zero. -/
theorem snapshot_comes_back_partial :
    let s : SystemSnapshot Integral := {
      telemetry := { (default : TelemetryInfo Integral) with
        interfaces := [⟨[0xFF], 1, 2, 0, 0, 0, 0, some ⟨0⟩, none⟩]
        disks := [⟨lit "sda", none, none, none, none⟩]
        cgroup := { (default : CgroupMetrics Integral) with
          memoryMax := some 7
          pressure := [⟨lit "cpu", some ⟨1⟩, none, none, some ⟨0⟩⟩] } }
      timestamp := 5
      cpu := default
      memory := default
      disk := default
      network := default
      loadavg := default
      process := ⟨1, 2, 3, [⟨4, true, -5, lit "init", -6, ⟨7⟩, 8, ⟨9⟩, 10⟩]⟩ }
    SystemSnapshot.fromJson s.toJson = s := by
  have h0 : RateFinite (none : Option Integral) := fun _ h => nomatch h
  have h1 : ∀ i : Int, i.natAbs < 10 ^ 60 → RateFinite (some (⟨i⟩ : Integral)) := by
    intro i hi d hd
    obtain rfl := Option.some.inj hd
    exact decide_eq_true hi
  refine snapshot_comes_back _ ⟨?_, ?_, (fun _ h => nomatch h), h0, h0, h0, ?_⟩
  · simp only [List.mem_singleton, forall_eq]
    exact ⟨h1 0 (by decide), h0⟩
  · simp only [List.mem_singleton, forall_eq]
    exact ⟨h0, h0, h0, h0⟩
  · simp only [List.mem_singleton, forall_eq]
    exact ⟨h1 1 (by decide), h0, h0, h1 0 (by decide)⟩

end WebHtop.Common
