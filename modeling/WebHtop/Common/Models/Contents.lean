import WebHtop.Common.Json.Clean
import WebHtop.Common.Models.Snapshot

/-!
# The strings and doubles of a snapshot

Listed model by model. A tree that `ToJson` builds is clean exactly when they are, and
`FromJson` takes only clean ones from a clean tree.
-/

namespace WebHtop.Common

open WebHtop.Lib JSONValue

variable {D : Type} [Double D]

/-- A string or a double of a model. -/
inductive Part (D : Type) where
  | string (b : Bytes)
  | double (d : D)

/-- A well-formed string, or a double with the property `P`. -/
def Part.Clean (P : D → Prop) : Part D → Prop
  | .string b => Utf8.WellFormed b
  | .double d => P d

/-- An optional rate. -/
def rateParts (rate : Option D) : List (Part D) := rate.toList.map .double

def CPUMetrics.parts (m : CPUMetrics D) : List (Part D) :=
  .double m.totalUsagePercent :: .double m.frequencyMhz :: m.perCoreUsagePercent.map .double

def MemoryMetrics.parts (m : MemoryMetrics D) : List (Part D) := [.double m.usedPercent]

def DiskMetrics.parts (m : DiskMetrics D) : List (Part D) := [.double m.usedPercent]

def NetworkMetrics.parts (m : NetworkMetrics D) : List (Part D) :=
  [.double m.rxKbps, .double m.txKbps]

def LoadavgMetrics.parts (m : LoadavgMetrics D) : List (Part D) :=
  [.double m.load1m, .double m.load5m, .double m.load15m]

def ProcessInfo.parts (p : ProcessInfo D) : List (Part D) :=
  [.string p.name, .double p.cpuPercent, .double p.memoryPercent]

def ProcessMetrics.parts (m : ProcessMetrics D) : List (Part D) :=
  m.processes.flatMap ProcessInfo.parts

def SampleStatus.parts (p : SampleStatus) : List (Part D) :=
  [.string p.name, .string p.state, .string p.error]

def InterfaceMetrics.parts (m : InterfaceMetrics D) : List (Part D) :=
  .string m.name :: (rateParts m.rxBytesPerSecond ++ rateParts m.txBytesPerSecond)

def DiskIoMetrics.parts (m : DiskIoMetrics D) : List (Part D) :=
  .string m.device :: (rateParts m.readBytesPerSecond ++ rateParts m.writeBytesPerSecond ++
    rateParts m.iops ++ rateParts m.busyPercent)

def PressureMetrics.parts (m : PressureMetrics D) : List (Part D) :=
  .string m.resource :: (rateParts m.someAvg10 ++ rateParts m.someAvg60 ++
    rateParts m.someAvg300 ++ rateParts m.fullAvg10)

def CgroupMetrics.parts (m : CgroupMetrics D) : List (Part D) :=
  .string m.path :: .string m.state :: (rateParts m.cpuQuotaCores ++ rateParts m.cpuPercent ++
    rateParts m.throttledMsPerSecond ++ m.pressure.flatMap PressureMetrics.parts)

def TelemetryInfo.parts (t : TelemetryInfo D) : List (Part D) :=
  .string t.instanceId :: .string t.bootId :: .string t.hostname ::
    (t.collectors.flatMap SampleStatus.parts ++ t.interfaces.flatMap InterfaceMetrics.parts ++
      t.disks.flatMap DiskIoMetrics.parts ++ t.pressure.flatMap PressureMetrics.parts ++
      t.cgroup.parts)

def SystemSnapshot.parts (s : SystemSnapshot D) : List (Part D) :=
  s.telemetry.parts ++ s.cpu.parts ++ s.memory.parts ++ s.disk.parts ++ s.network.parts ++
    s.loadavg.parts ++ s.process.parts

/-! ## What `FromJson` takes from a clean tree -/

section

variable {v : JSONValue D}

omit [Double D] in
theorem mem_arrayOr_clean {P : D → Prop} {e : JSONValue D} {key : Bytes} (h : v.Clean P)
    (he : e ∈ arrayOr v key) : e.Clean P := by
  unfold arrayOr at he
  cases hf : v.field key with
  | none => simp [hf] at he
  | some w =>
      have hw := h.field hf
      rw [hf] at he
      cases w with
      | array vs => exact cleanItems_iff.mp hw e he
      | _ => cases he

abbrev Finite (d : D) : Prop := Double.isFinite d = true

theorem clean_number (v : JSONValue D) (key : Bytes) :
    ∀ a ∈ rateParts (Access.number v key), a.Clean Finite := by
  intro a ha
  obtain ⟨d, hd, rfl⟩ := List.mem_map.mp ha
  exact (Option.filter_eq_some_iff.mp (Option.mem_toList.mp hd)).2

/-- The models built from the elements of an array field. -/
theorem clean_elements {α : Type} {f : JSONValue D → α} {g : α → List (Part D)}
    (hf : ∀ e : JSONValue D, e.Clean Finite → ∀ a ∈ g (f e), a.Clean Finite) (h : v.Clean Finite)
    (key : Bytes) : ∀ a ∈ ((arrayOr v key).map f).flatMap g, a.Clean Finite := by
  intro a ha
  obtain ⟨m, hm, ha⟩ := List.mem_flatMap.mp ha
  obtain ⟨e, he, rfl⟩ := List.mem_map.mp hm
  exact hf e (mem_arrayOr_clean h he) a ha

/-- A model built from a field, or the default. -/
theorem clean_section {α : Type} [Inhabited α] {f : JSONValue D → α} {g : α → List (Part D)}
    (hf : ∀ {e : JSONValue D}, e.Clean Finite → ∀ a ∈ g (f e), a.Clean Finite)
    (hd : ∀ a ∈ g default, a.Clean Finite) (h : v.Clean Finite) (key : Bytes) :
    ∀ a ∈ g (((v.field key).map f).getD default), a.Clean Finite := by
  cases hk : v.field key with
  | none => exact hd
  | some w => exact hf (h.field hk)

theorem SampleStatus.clean_fromJson (h : v.Clean Finite) :
    ∀ a ∈ (SampleStatus.fromJson v).parts (D := D), a.Clean Finite := by
  simp only [parts, fromJson, List.forall_mem_cons]
  exact ⟨h.text _, h.text _, h.text _, fun _ ha => nomatch ha⟩

theorem InterfaceMetrics.clean_fromJson (h : v.Clean Finite) :
    ∀ a ∈ (InterfaceMetrics.fromJson v).parts, a.Clean Finite := by
  simp only [parts, fromJson, List.forall_mem_cons, List.forall_mem_append]
  exact ⟨h.text _, clean_number v _, clean_number v _⟩

theorem DiskIoMetrics.clean_fromJson (h : v.Clean Finite) :
    ∀ a ∈ (DiskIoMetrics.fromJson v).parts, a.Clean Finite := by
  simp only [parts, fromJson, List.forall_mem_cons, List.forall_mem_append]
  exact ⟨h.text _, ⟨⟨clean_number v _, clean_number v _⟩, clean_number v _⟩, clean_number v _⟩

theorem PressureMetrics.clean_fromJson (h : v.Clean Finite) :
    ∀ a ∈ (PressureMetrics.fromJson v).parts, a.Clean Finite := by
  simp only [parts, fromJson, List.forall_mem_cons, List.forall_mem_append]
  exact ⟨h.text _, ⟨⟨clean_number v _, clean_number v _⟩, clean_number v _⟩, clean_number v _⟩

theorem CgroupMetrics.clean_fromJson (h : v.Clean Finite) :
    ∀ a ∈ (CgroupMetrics.fromJson v).parts, a.Clean Finite := by
  simp only [parts, fromJson, List.forall_mem_cons, List.forall_mem_append]
  exact ⟨h.text _, h.text _, ⟨⟨clean_number v _, clean_number v _⟩, clean_number v _⟩,
    clean_elements (fun _ => PressureMetrics.clean_fromJson) h _⟩

theorem CgroupMetrics.clean_default :
    ∀ a ∈ (default : CgroupMetrics D).parts, a.Clean Finite := by
  have hpath : Utf8.WellFormed [] := Utf8.wellFormed_nil
  have hstate : Utf8.WellFormed (lit "disabled") := Json.wellFormed_of_ascii (by decide)
  intro a ha
  rcases List.mem_cons.mp ha with rfl | ha
  · exact hpath
  · obtain rfl := List.mem_singleton.mp ha
    exact hstate

theorem TelemetryInfo.clean_fromJson (h : v.Clean Finite) :
    ∀ a ∈ (TelemetryInfo.fromJson v).parts, a.Clean Finite := by
  simp only [parts, fromJson, List.forall_mem_cons, List.forall_mem_append]
  exact ⟨h.text _, h.text _, h.text _,
    ⟨⟨⟨clean_elements (fun _ => SampleStatus.clean_fromJson) h _,
      clean_elements (fun _ => InterfaceMetrics.clean_fromJson) h _⟩,
      clean_elements (fun _ => DiskIoMetrics.clean_fromJson) h _⟩,
      clean_elements (fun _ => PressureMetrics.clean_fromJson) h _⟩,
    clean_section CgroupMetrics.clean_fromJson CgroupMetrics.clean_default h _⟩

theorem TelemetryInfo.clean_default :
    ∀ a ∈ (default : TelemetryInfo D).parts, a.Clean Finite := by
  have hempty : Utf8.WellFormed [] := Utf8.wellFormed_nil
  show ∀ a ∈ Part.string [] :: .string [] :: .string [] :: (default : CgroupMetrics D).parts, _
  simp only [List.forall_mem_cons]
  exact ⟨hempty, hempty, hempty, CgroupMetrics.clean_default⟩

variable [LawfulDouble D]

theorem finite_asDouble {d : D} (h : v.Clean Finite) (hd : v.asDouble = some d) : Finite d := by
  cases v with
  | double => exact Option.some.inj hd ▸ h
  | int64 => exact Option.some.inj hd ▸ LawfulDouble.finite_ofInt64 _
  | uint64 => exact Option.some.inj hd ▸ LawfulDouble.finite_ofUInt64 _
  | _ => cases hd

theorem finite_zero : Finite (zero : D) := LawfulDouble.finite_ofInt64 0

theorem finite_doubleOr (h : v.Clean Finite) (key : Bytes) : Finite (doubleOr v key) := by
  unfold doubleOr
  cases hd : (v.field key).bind JSONValue.asDouble with
  | none => exact finite_zero
  | some d =>
      obtain ⟨w, hw, hd⟩ := Option.bind_eq_some_iff.mp hd
      exact finite_asDouble (h.field hw) hd

theorem CPUMetrics.clean_fromJson (h : v.Clean Finite) :
    ∀ a ∈ (CPUMetrics.fromJson v).parts, a.Clean Finite := by
  simp only [parts, fromJson, List.forall_mem_cons]
  refine ⟨finite_doubleOr h _, finite_doubleOr h _, ?_⟩
  intro a ha
  obtain ⟨d, hd, rfl⟩ := List.mem_map.mp ha
  obtain ⟨e, he, hd⟩ := List.mem_filterMap.mp hd
  exact finite_asDouble (mem_arrayOr_clean h he) hd

theorem MemoryMetrics.clean_fromJson (h : v.Clean Finite) :
    ∀ a ∈ (MemoryMetrics.fromJson v).parts, a.Clean Finite := by
  simp only [parts, fromJson, List.mem_singleton, forall_eq]
  exact finite_doubleOr h _

theorem DiskMetrics.clean_fromJson (h : v.Clean Finite) :
    ∀ a ∈ (DiskMetrics.fromJson v).parts, a.Clean Finite := by
  simp only [parts, fromJson, List.mem_singleton, forall_eq]
  exact finite_doubleOr h _

theorem NetworkMetrics.clean_fromJson (h : v.Clean Finite) :
    ∀ a ∈ (NetworkMetrics.fromJson v).parts, a.Clean Finite := by
  simp only [parts, fromJson, List.forall_mem_cons]
  exact ⟨finite_doubleOr h _, finite_doubleOr h _, fun _ ha => nomatch ha⟩

theorem LoadavgMetrics.clean_fromJson (h : v.Clean Finite) :
    ∀ a ∈ (LoadavgMetrics.fromJson v).parts, a.Clean Finite := by
  simp only [parts, fromJson, List.forall_mem_cons]
  exact ⟨finite_doubleOr h _, finite_doubleOr h _, finite_doubleOr h _, fun _ ha => nomatch ha⟩

theorem ProcessInfo.clean_fromJson (h : v.Clean Finite) :
    ∀ a ∈ (ProcessInfo.fromJson v).parts, a.Clean Finite := by
  simp only [parts, fromJson, List.forall_mem_cons]
  exact ⟨h.text _, finite_doubleOr h _, finite_doubleOr h _, fun _ ha => nomatch ha⟩

theorem ProcessMetrics.clean_fromJson (h : v.Clean Finite) :
    ∀ a ∈ (ProcessMetrics.fromJson v).parts, a.Clean Finite :=
  clean_elements (fun _ => ProcessInfo.clean_fromJson) h _

/-- Every string and double of the snapshot is clean when the document is. -/
theorem SystemSnapshot.clean_fromJson (h : v.Clean Finite) :
    ∀ a ∈ (SystemSnapshot.fromJson v).parts, a.Clean Finite := by
  have hzero : (Part.double (zero : D)).Clean Finite := finite_zero
  simp only [parts, fromJson, List.forall_mem_append]
  refine ⟨⟨⟨⟨⟨⟨clean_section TelemetryInfo.clean_fromJson TelemetryInfo.clean_default h _,
    clean_section CPUMetrics.clean_fromJson ?_ h _⟩,
    clean_section MemoryMetrics.clean_fromJson ?_ h _⟩,
    clean_section DiskMetrics.clean_fromJson ?_ h _⟩,
    clean_section NetworkMetrics.clean_fromJson ?_ h _⟩,
    clean_section LoadavgMetrics.clean_fromJson ?_ h _⟩,
    clean_section ProcessMetrics.clean_fromJson (fun _ ha => nomatch ha) h _⟩
  · show ∀ a ∈ [Part.double (zero : D), .double zero], _
    simp [hzero]
  · show ∀ a ∈ [Part.double (zero : D)], _
    simp [hzero]
  · show ∀ a ∈ [Part.double (zero : D)], _
    simp [hzero]
  · show ∀ a ∈ [Part.double (zero : D), .double zero], _
    simp [hzero]
  · show ∀ a ∈ [Part.double (zero : D), .double zero, .double zero], _
    simp [hzero]

end

end WebHtop.Common
