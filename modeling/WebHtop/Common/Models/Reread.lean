import WebHtop.Common.Json.Reread
import WebHtop.Common.Models.Contents
import WebHtop.Common.Models.RoundTrip
import WebHtop.Common.Models.Values

/-!
# Models that have been written and read

`FromJson` of the tree that comes back from the text of a model gives the model, with every double
as a double of the same value.
-/

namespace WebHtop.Common

open WebHtop.Lib JSONValue

variable {D : Type} [Double D] {real : D → JSONValue D} {v : JSONValue D} {key : Bytes}

/-! ## Lookups -/

omit [Double D] in
theorem uint_back (hv : v.isObject = true) (h : (v.field key).any isIntegral = true) :
    Access.uint (back real v) key = Access.uint v key := by
  obtain ⟨w, hw, hint⟩ := (Option.any_eq_true _ _).mp h
  rw [Access.uint, Access.uint, field_back hv, hw]
  exact (integral_back hint).1

omit [Double D] in
theorem uintOr_back (hv : v.isObject = true) (h : (v.field key).any isIntegral = true)
    (default : UInt64) : uintOr (back real v) key default = uintOr v key default := by
  rw [uintOr, uintOr, uint_back hv h]

omit [Double D] in
theorem int64At_back (hv : v.isObject = true) (h : (v.field key).any isIntegral = true) :
    int64At (back real v) key = int64At v key := by
  obtain ⟨w, hw, hint⟩ := (Option.any_eq_true _ _).mp h
  rw [int64At, int64At, field_back hv, hw]
  exact (integral_back hint).2

omit [Double D] in
theorem text_back (hv : v.isObject = true) (h : (v.field key).any isString = true) :
    Access.text (back real v) key = Access.text v key := by
  obtain ⟨w, hw, hstring⟩ := (Option.any_eq_true _ _).mp h
  rw [Access.text, Access.text, field_back hv, hw]
  cases w with
  | string s => rfl
  | _ => cases hstring

omit [Double D] in
theorem boolean_back (hv : v.isObject = true) (h : (v.field key).any isBool = true) :
    Access.boolean (back real v) key = Access.boolean v key := by
  obtain ⟨w, hw, hbool⟩ := (Option.any_eq_true _ _).mp h
  rw [Access.boolean, Access.boolean, field_back hv, hw]
  cases w with
  | bool b => rfl
  | _ => cases hbool

omit [Double D] in
theorem arrayOr_back (hv : v.isObject = true) (h : (v.field key).any isArray = true) :
    arrayOr (back real v) key = (arrayOr v key).map (back real) := by
  obtain ⟨w, hw, harray⟩ := (Option.any_eq_true _ _).mp h
  rw [arrayOr, arrayOr, field_back hv, hw]
  cases w with
  | array vs =>
    rw [Option.map_some, Option.bind_some, back_array]
    rfl
  | _ => cases harray

section

variable [LawfulDouble D]

/-- A plain double is found as a finite number of its value. -/
theorem double_back (hr : Readback real) {d : D} (hd : Plain d) :
    ∃ d', (back real (.double d)).asDouble = some d' ∧ Double.isFinite d' = true ∧
      LawfulDouble.val d' = LawfulDouble.val d := (hr.number d hd).2

theorem doubleOr_back (hr : Readback real) (key : Bytes) (hv : v.isObject = true) {d : D}
    (h : v.field key = some (.double d)) (hd : Plain d) :
    LawfulDouble.val (doubleOr (back real v) key) = LawfulDouble.val d := by
  obtain ⟨d', hread, -, hval⟩ := double_back hr hd
  rw [doubleOr, field_back hv, h, Option.map_some, Option.bind_some, hread]
  exact hval

theorem number_back (hr : Readback real) (key : Bytes) (hv : v.isObject = true) {d : D}
    (h : v.field key = some (.double d)) (hd : Plain d) :
    ∃ d', Access.number (back real v) key = some d' ∧ Double.isFinite d' = true ∧
      LawfulDouble.val d' = LawfulDouble.val d := by
  obtain ⟨d', hread, hf, hval⟩ := double_back hr hd
  refine ⟨d', ?_, hf, hval⟩
  rw [Access.number, field_back hv, h, Option.map_some, Option.bind_some, hread,
    Option.filter_some, if_pos hf]

theorem rate_back (hr : Readback real) (key : Bytes) (hv : v.isObject = true) {rate : Option D}
    (h : v.field key = some (makeOptional .double rate))
    (hd : ∀ a ∈ rateParts rate, a.Clean Plain) :
    (Access.number (back real v) key).map LawfulDouble.val = rate.map LawfulDouble.val := by
  cases rate with
  | none =>
    rw [Access.number, field_back hv, h]
    rfl
  | some d =>
    obtain ⟨d', hread, -, hval⟩ := number_back hr key hv h (hd (.double d) (by simp [rateParts]))
    rw [hread]
    exact congrArg some hval

omit [Double D] [LawfulDouble D] in
theorem optional_back (real : D → JSONValue D) (key : Bytes) (hv : v.isObject = true)
    {o : Option UInt64}
    (h : v.field key = some (makeOptional .uint64 o)) : Access.uint (back real v) key = o := by
  rw [Access.uint, field_back hv, h]
  cases o with
  | none => rfl
  | some u =>
    show (back real (.uint64 u)).asUInt64 = some u
    rw [back_uint64]
    rfl

omit [Double D] [LawfulDouble D] in
/-- The rows of an array, read one by one. -/
theorem rows_back {α β γ : Type} {toJson : α → JSONValue D} {fromJson : JSONValue D → β}
    {f : β → γ} {g : α → γ} {P : α → Prop}
    (h : ∀ a, P a → f (fromJson (back real (toJson a))) = g a) (rows : List α)
    (hrows : ∀ a ∈ rows, P a) :
    (((rows.map toJson).map (back real)).map fromJson).map f = rows.map g := by
  rw [List.map_map, List.map_map, List.map_map]
  exact List.map_congr_left fun a ha => h a (hrows a ha)

/-! ## The sections -/

theorem CPUMetrics.fromJson_back (hr : Readback real) {m : CPUMetrics D}
    (hp : ∀ a ∈ m.parts, a.Clean Plain) :
    (fromJson (back real m.toJson)).map LawfulDouble.val = m.map LawfulDouble.val := by
  simp only [parts, List.forall_mem_cons] at hp
  obtain ⟨htotal, hfrequency, hcores⟩ := hp
  have h1 := doubleOr_back (v := m.toJson) hr (lit "total_usage_percent") rfl rfl htotal
  have h2 := doubleOr_back (v := m.toJson) hr (lit "frequency_mhz") rfl rfl hfrequency
  have h3 : ((arrayOr (back real m.toJson) (lit "per_core_usage_percent")).filterMap
      asDouble).map LawfulDouble.val = m.perCoreUsagePercent.map LawfulDouble.val := by
    have harray : arrayOr m.toJson (lit "per_core_usage_percent") =
      m.perCoreUsagePercent.map .double := rfl
    rw [arrayOr_back rfl rfl, harray]
    clear harray h1 h2
    generalize m.perCoreUsagePercent = ds at hcores ⊢
    induction ds with
    | nil => rfl
    | cons d ds ih =>
      simp only [List.map_cons, List.forall_mem_cons] at hcores
      obtain ⟨d', hread, -, hval⟩ := double_back hr hcores.1
      simp only [List.map_cons, List.filterMap_cons, hread, hval, ih hcores.2]
  have hcount : uintOr m.toJson (lit "core_count") 0 = m.coreCount.toUInt64 := rfl
  simp (disch := with_unfolding_all exact id rfl) only [fromJson, map, h1, h2, h3, uintOr_back, hcount,
    UInt32.toUInt32_toUInt64]
  rfl

theorem MemoryMetrics.fromJson_back (hr : Readback real) {m : MemoryMetrics D}
    (hp : ∀ a ∈ m.parts, a.Clean Plain) :
    (fromJson (back real m.toJson)).map LawfulDouble.val = m.map LawfulDouble.val := by
  have h := doubleOr_back (v := m.toJson) hr (lit "used_percent") rfl rfl
    (hp (.double m.usedPercent) (by simp [parts]))
  simp (disch := with_unfolding_all exact id rfl) only [fromJson, map, h, uintOr_back]
  rfl

theorem DiskMetrics.fromJson_back (hr : Readback real) {m : DiskMetrics D}
    (hp : ∀ a ∈ m.parts, a.Clean Plain) :
    (fromJson (back real m.toJson)).map LawfulDouble.val = m.map LawfulDouble.val := by
  have h := doubleOr_back (v := m.toJson) hr (lit "used_percent") rfl rfl
    (hp (.double m.usedPercent) (by simp [parts]))
  simp (disch := with_unfolding_all exact id rfl) only [fromJson, map, h, uintOr_back]
  rfl

theorem NetworkMetrics.fromJson_back (hr : Readback real) {m : NetworkMetrics D}
    (hp : ∀ a ∈ m.parts, a.Clean Plain) :
    (fromJson (back real m.toJson)).map LawfulDouble.val = m.map LawfulDouble.val := by
  simp only [parts, List.forall_mem_cons] at hp
  have h1 := doubleOr_back (v := m.toJson) hr (lit "rx_kbps") rfl rfl hp.1
  have h2 := doubleOr_back (v := m.toJson) hr (lit "tx_kbps") rfl rfl hp.2.1
  simp (disch := with_unfolding_all exact id rfl) only [fromJson, map, h1, h2, uintOr_back]
  rfl

theorem LoadavgMetrics.fromJson_back (hr : Readback real) {m : LoadavgMetrics D}
    (hp : ∀ a ∈ m.parts, a.Clean Plain) :
    (fromJson (back real m.toJson)).map LawfulDouble.val = m.map LawfulDouble.val := by
  simp only [parts, List.forall_mem_cons] at hp
  have h1 := doubleOr_back (v := m.toJson) hr (lit "load_1m") rfl rfl hp.1
  have h2 := doubleOr_back (v := m.toJson) hr (lit "load_5m") rfl rfl hp.2.1
  have h3 := doubleOr_back (v := m.toJson) hr (lit "load_15m") rfl rfl hp.2.2.1
  simp (disch := with_unfolding_all exact id rfl) only [fromJson, map, h1, h2, h3, uintOr_back]
  rfl

theorem ProcessInfo.fromJson_back (hr : Readback real) {p : ProcessInfo D}
    (hp : ∀ a ∈ p.parts, a.Clean Plain) :
    (fromJson (back real p.toJson)).map LawfulDouble.val = p.map LawfulDouble.val := by
  simp only [parts, List.forall_mem_cons] at hp
  have h1 := doubleOr_back (v := p.toJson) hr (lit "cpu_percent") rfl rfl hp.2.1
  have h2 := doubleOr_back (v := p.toJson) hr (lit "memory_percent") rfl rfl hp.2.2.1
  have hpid : int64At p.toJson (lit "pid") = some p.pid.toInt64 := rfl
  have hstate : int64At p.toJson (lit "state") = some p.state.toInt64 := rfl
  have hthreads : uintOr p.toJson (lit "thread_count") 0 = p.threadCount.toUInt64 := rfl
  simp (disch := with_unfolding_all exact id rfl) only [fromJson, map, h1, h2, uintOr_back, int64At_back, boolean_back,
    text_back, hpid, hstate, hthreads, Option.map_some, Option.getD_some, Int32.toInt32_toInt64,
    Int8.toInt8_toInt64, UInt32.toUInt32_toUInt64]
  rfl

theorem ProcessMetrics.fromJson_back (hr : Readback real) {m : ProcessMetrics D}
    (hp : ∀ a ∈ m.parts, a.Clean Plain) :
    (fromJson (back real m.toJson)).map LawfulDouble.val = m.map LawfulDouble.val := by
  have hlist : arrayOr m.toJson (lit "processes") = m.processes.map ProcessInfo.toJson := rfl
  have hrows := rows_back (P := fun p : ProcessInfo D => ∀ a ∈ p.parts, a.Clean Plain)
    (fun p => ProcessInfo.fromJson_back hr) m.processes
    fun p hmem a ha => hp a (List.mem_flatMap.mpr ⟨p, hmem, ha⟩)
  simp (disch := with_unfolding_all exact id rfl) only [fromJson, map, uintOr_back, arrayOr_back, hlist, hrows]
  rfl

/-! ## Telemetry -/

omit [Double D] [LawfulDouble D] in
theorem SampleStatus.fromJson_back (p : SampleStatus) :
    fromJson (back real (p.toJson : JSONValue D)) = p := by
  simp (disch := with_unfolding_all exact id rfl) only [fromJson, uintOr_back, text_back]
  rfl

theorem InterfaceMetrics.fromJson_back (hr : Readback real) {m : InterfaceMetrics D}
    (hp : ∀ a ∈ m.parts, a.Clean Plain) :
    (fromJson (back real m.toJson)).map LawfulDouble.val = m.map LawfulDouble.val := by
  simp only [parts, List.forall_mem_cons, List.forall_mem_append] at hp
  have h1 := rate_back (v := m.toJson) hr (lit "rx_bytes_per_second") rfl rfl hp.2.1
  have h2 := rate_back (v := m.toJson) hr (lit "tx_bytes_per_second") rfl rfl hp.2.2
  simp (disch := with_unfolding_all exact id rfl) only [fromJson, map, h1, h2, uintOr_back,
    text_back]
  rfl

theorem DiskIoMetrics.fromJson_back (hr : Readback real) {m : DiskIoMetrics D}
    (hp : ∀ a ∈ m.parts, a.Clean Plain) :
    (fromJson (back real m.toJson)).map LawfulDouble.val = m.map LawfulDouble.val := by
  simp only [parts, List.forall_mem_cons, List.forall_mem_append] at hp
  obtain ⟨-, ⟨⟨hread, hwrite⟩, hiops⟩, hbusy⟩ := hp
  have h1 := rate_back (v := m.toJson) hr (lit "read_bytes_per_second") rfl rfl hread
  have h2 := rate_back (v := m.toJson) hr (lit "write_bytes_per_second") rfl rfl hwrite
  have h3 := rate_back (v := m.toJson) hr (lit "iops") rfl rfl hiops
  have h4 := rate_back (v := m.toJson) hr (lit "busy_percent") rfl rfl hbusy
  simp (disch := with_unfolding_all exact id rfl) only [fromJson, map, h1, h2, h3, h4, text_back]
  rfl

theorem PressureMetrics.fromJson_back (hr : Readback real) {m : PressureMetrics D}
    (hp : ∀ a ∈ m.parts, a.Clean Plain) :
    (fromJson (back real m.toJson)).map LawfulDouble.val = m.map LawfulDouble.val := by
  simp only [parts, List.forall_mem_cons, List.forall_mem_append] at hp
  obtain ⟨-, ⟨⟨h10, h60⟩, h300⟩, hfull⟩ := hp
  have h1 := rate_back (v := m.toJson) hr (lit "some_avg10") rfl rfl h10
  have h2 := rate_back (v := m.toJson) hr (lit "some_avg60") rfl rfl h60
  have h3 := rate_back (v := m.toJson) hr (lit "some_avg300") rfl rfl h300
  have h4 := rate_back (v := m.toJson) hr (lit "full_avg10") rfl rfl hfull
  simp (disch := with_unfolding_all exact id rfl) only [fromJson, map, h1, h2, h3, h4, text_back]
  rfl

/-- The rows of pressure, of the host or of a cgroup. -/
theorem PressureMetrics.rows_back (hr : Readback real) {rows : List (PressureMetrics D)}
    (hp : ∀ a ∈ rows.flatMap PressureMetrics.parts, a.Clean Plain) :
    (((rows.map toJson).map (back real)).map fromJson).map (map LawfulDouble.val) =
      rows.map (map LawfulDouble.val) :=
  Common.rows_back (P := fun m : PressureMetrics D => ∀ a ∈ m.parts, a.Clean Plain)
    (fun _ => PressureMetrics.fromJson_back hr) rows
    fun m hmem a ha => hp a (List.mem_flatMap.mpr ⟨m, hmem, ha⟩)

theorem CgroupMetrics.fromJson_back (hr : Readback real) {m : CgroupMetrics D}
    (hp : ∀ a ∈ m.parts, a.Clean Plain) :
    (fromJson (back real m.toJson)).map LawfulDouble.val = m.map LawfulDouble.val := by
  simp only [parts, List.forall_mem_cons, List.forall_mem_append] at hp
  obtain ⟨-, -, ⟨⟨hquota, hcpu⟩, hthrottled⟩, hpressure⟩ := hp
  have h1 := optional_back (v := m.toJson) real (lit "memory_current") rfl rfl
  have h2 := optional_back (v := m.toJson) real (lit "memory_max") rfl rfl
  have h3 := optional_back (v := m.toJson) real (lit "oom_kill") rfl rfl
  have h4 := optional_back (v := m.toJson) real (lit "nr_throttled") rfl rfl
  have h5 := rate_back (v := m.toJson) hr (lit "cpu_quota_cores") rfl rfl hquota
  have h6 := rate_back (v := m.toJson) hr (lit "cpu_percent") rfl rfl hcpu
  have h7 := rate_back (v := m.toJson) hr (lit "throttled_ms_per_second") rfl rfl hthrottled
  have hrows : arrayOr m.toJson (lit "pressure") = m.pressure.map PressureMetrics.toJson := rfl
  have h8 := PressureMetrics.rows_back hr hpressure
  simp (disch := with_unfolding_all exact id rfl) only [fromJson, map, h1, h2, h3, h4, h5, h6, h7,
    arrayOr_back, hrows, h8, text_back, boolean_back]
  rfl

theorem TelemetryInfo.fromJson_back (hr : Readback real) {t : TelemetryInfo D}
    (hp : ∀ a ∈ t.parts, a.Clean Plain) :
    (fromJson (back real t.toJson)).map LawfulDouble.val = t.map LawfulDouble.val := by
  simp only [parts, List.forall_mem_cons, List.forall_mem_append] at hp
  obtain ⟨-, -, -, ⟨⟨⟨-, hinterfaces⟩, hdisks⟩, hpressure⟩, hcgroup⟩ := hp
  have hids : arrayOr t.toJson (lit "cpu_ids") = t.cpuIds.map fun id => .uint64 id.toUInt64 := rfl
  have hcollectors : arrayOr t.toJson (lit "collectors") = t.collectors.map SampleStatus.toJson :=
    rfl
  have hfaces : arrayOr t.toJson (lit "interfaces") = t.interfaces.map InterfaceMetrics.toJson :=
    rfl
  have hdrives : arrayOr t.toJson (lit "disks") = t.disks.map DiskIoMetrics.toJson := rfl
  have hrows : arrayOr t.toJson (lit "pressure") = t.pressure.map PressureMetrics.toJson := rfl
  have hfield : (back real t.toJson).field (lit "cgroup") = some (back real t.cgroup.toJson) :=
    field_back rfl
  have h1 : ((t.cpuIds.map fun id => JSONValue.uint64 (D := D) id.toUInt64).map
      (back real)).filterMap cpuId = t.cpuIds := by
    rw [List.map_map]
    refine filterMap_map_self (fun id => ?_) t.cpuIds
    show cpuId (back real (.uint64 id.toUInt64)) = some id
    rw [back_uint64]
    exact cpuId_uint64 id
  have h2 : ((t.collectors.map SampleStatus.toJson).map (back real)).map SampleStatus.fromJson =
      t.collectors := by
    rw [List.map_map, List.map_map]
    conv_rhs => rw [← List.map_id t.collectors]
    exact List.map_congr_left fun p _ => SampleStatus.fromJson_back p
  have h3 := rows_back (P := fun m : InterfaceMetrics D => ∀ a ∈ m.parts, a.Clean Plain)
    (fun _ => InterfaceMetrics.fromJson_back hr) t.interfaces
    fun m hmem a ha => hinterfaces a (List.mem_flatMap.mpr ⟨m, hmem, ha⟩)
  have h4 := rows_back (P := fun m : DiskIoMetrics D => ∀ a ∈ m.parts, a.Clean Plain)
    (fun _ => DiskIoMetrics.fromJson_back hr) t.disks
    fun m hmem a ha => hdisks a (List.mem_flatMap.mpr ⟨m, hmem, ha⟩)
  have h5 := PressureMetrics.rows_back hr hpressure
  have h6 := CgroupMetrics.fromJson_back hr hcgroup
  simp (disch := with_unfolding_all exact id rfl) only [fromJson, map, uintOr_back, text_back,
    boolean_back, arrayOr_back, hids, hcollectors, hfaces, hdrives, hrows, hfield, Option.map_some,
    Option.getD_some, h1, h2, h3, h4, h5, h6]
  rfl

end

end WebHtop.Common
