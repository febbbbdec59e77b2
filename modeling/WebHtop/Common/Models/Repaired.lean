import WebHtop.Common.Models.Sizes

/-!
# Snapshots with repaired strings

Linux names are byte strings. What `Encode` writes of them is the text of the snapshot with every
string repaired: the tree of `ToJson`, repaired, is the tree of the repaired snapshot.
-/

namespace WebHtop.Common

open WebHtop.Lib WebHtop.Lib.Json JSONValue

variable {D : Type}

/-! ## The repair, model by model -/

def ProcessInfo.repaired (p : ProcessInfo D) : ProcessInfo D := { p with name := Utf8.repair p.name }

def ProcessMetrics.repaired (m : ProcessMetrics D) : ProcessMetrics D :=
  { m with processes := m.processes.map ProcessInfo.repaired }

def SampleStatus.repaired (p : SampleStatus) : SampleStatus :=
  { p with name := Utf8.repair p.name, state := Utf8.repair p.state, error := Utf8.repair p.error }

def InterfaceMetrics.repaired (m : InterfaceMetrics D) : InterfaceMetrics D :=
  { m with name := Utf8.repair m.name }

def DiskIoMetrics.repaired (m : DiskIoMetrics D) : DiskIoMetrics D :=
  { m with device := Utf8.repair m.device }

def PressureMetrics.repaired (m : PressureMetrics D) : PressureMetrics D :=
  { m with resource := Utf8.repair m.resource }

def CgroupMetrics.repaired (m : CgroupMetrics D) : CgroupMetrics D :=
  { m with
    path := Utf8.repair m.path
    state := Utf8.repair m.state
    pressure := m.pressure.map PressureMetrics.repaired }

def TelemetryInfo.repaired (t : TelemetryInfo D) : TelemetryInfo D :=
  { t with
    instanceId := Utf8.repair t.instanceId
    bootId := Utf8.repair t.bootId
    hostname := Utf8.repair t.hostname
    collectors := t.collectors.map SampleStatus.repaired
    interfaces := t.interfaces.map InterfaceMetrics.repaired
    disks := t.disks.map DiskIoMetrics.repaired
    pressure := t.pressure.map PressureMetrics.repaired
    cgroup := t.cgroup.repaired }

def SystemSnapshot.repaired (s : SystemSnapshot D) : SystemSnapshot D :=
  { s with telemetry := s.telemetry.repaired, process := s.process.repaired }

/-! ## The trees -/

theorem repair_ascii {b : Bytes} (h : (b.all fun c => decide (c.toNat < 0x80)) = true) :
    Utf8.repair b = b := Utf8.repair_wellFormed (wellFormed_of_ascii h)

theorem repairedItems_eq (vs : List (JSONValue D)) : repairedItems vs = vs.map JSONValue.repaired := by
  induction vs with
  | nil => rfl
  | cons v vs ih => rw [repairedItems, ih, List.map_cons]

theorem repairedMembers_eq (ms : List (Bytes × JSONValue D)) :
    repairedMembers ms = ms.map fun m => (Utf8.repair m.1, m.2.repaired) := by
  induction ms with
  | nil => rfl
  | cons m ms ih => rw [repairedMembers, ih, List.map_cons]

/-- The keys that the models write are ASCII: a repair leaves them alone. -/
theorem repaired_object {ms ms' : List (Bytes × JSONValue D)}
    (hkeys : (ms.all fun m => m.1.all fun c => decide (c.toNat < 0x80)) = true)
    (hms : ms.map (fun m => (m.1, m.2.repaired)) = ms') :
    (JSONValue.object ms).repaired = .object ms' := by
  show JSONValue.object (repairedMembers ms) = _
  rw [repairedMembers_eq, ← hms]
  refine congrArg JSONValue.object (List.map_congr_left fun m hm => ?_)
  rw [repair_ascii (List.all_eq_true.mp hkeys m hm)]

theorem repaired_array {α : Type} {f : α → JSONValue D} {h : α → α} {as : List α}
    (hf : ∀ a, (f a).repaired = f (h a)) :
    (JSONValue.array (as.map f)).repaired = .array ((as.map h).map f) := by
  show JSONValue.array (repairedItems (as.map f)) = _
  rw [repairedItems_eq, List.map_map, List.map_map]
  exact congrArg JSONValue.array (List.map_congr_left fun a _ => hf a)

/-- An array without strings. -/
theorem repaired_numbers {α : Type} {f : α → JSONValue D} {as : List α}
    (hf : ∀ a, (f a).repaired = f a) : (JSONValue.array (as.map f)).repaired = .array (as.map f) := by
  rw [repaired_array (h := id) hf, List.map_id]

theorem repaired_optional {α : Type} {make : α → JSONValue D} (h : ∀ a, (make a).repaired = make a)
    (o : Option α) : (makeOptional make o).repaired = makeOptional make o := by
  cases o with
  | none => rfl
  | some a => exact h a

@[simp] theorem repaired_uint64 (u : UInt64) : (JSONValue.uint64 u : JSONValue D).repaired = .uint64 u :=
  rfl

@[simp] theorem repaired_int64 (i : Int64) : (JSONValue.int64 i : JSONValue D).repaired = .int64 i := rfl

@[simp] theorem repaired_double (d : D) : (JSONValue.double d).repaired = .double d := rfl

@[simp] theorem repaired_bool (b : Bool) : (JSONValue.bool b : JSONValue D).repaired = .bool b := rfl

@[simp] theorem repaired_string (b : Bytes) :
    (JSONValue.string b : JSONValue D).repaired = .string (Utf8.repair b) := rfl

@[simp] theorem repaired_optional_double (o : Option D) :
    (makeOptional JSONValue.double o).repaired = makeOptional .double o :=
  repaired_optional (fun _ => rfl) o

@[simp] theorem repaired_optional_uint64 (o : Option UInt64) :
    (makeOptional JSONValue.uint64 o : JSONValue D).repaired = makeOptional .uint64 o :=
  repaired_optional (fun _ => rfl) o

theorem CPUMetrics.repaired_toJson (m : CPUMetrics D) : m.toJson.repaired = m.toJson := by
  refine repaired_object rfl ?_
  simp [repaired_numbers (f := JSONValue.double) fun _ => rfl]

theorem MemoryMetrics.repaired_toJson (m : MemoryMetrics D) : m.toJson.repaired = m.toJson :=
  repaired_object rfl rfl

theorem DiskMetrics.repaired_toJson (m : DiskMetrics D) : m.toJson.repaired = m.toJson :=
  repaired_object rfl rfl

theorem NetworkMetrics.repaired_toJson (m : NetworkMetrics D) : m.toJson.repaired = m.toJson :=
  repaired_object rfl rfl

theorem LoadavgMetrics.repaired_toJson (m : LoadavgMetrics D) : m.toJson.repaired = m.toJson :=
  repaired_object rfl rfl

theorem ProcessInfo.repaired_toJson (p : ProcessInfo D) :
    p.toJson.repaired = p.repaired.toJson := repaired_object rfl rfl

theorem ProcessMetrics.repaired_toJson (m : ProcessMetrics D) :
    m.toJson.repaired = m.repaired.toJson := by
  refine repaired_object rfl ?_
  simp [repaired, repaired_array ProcessInfo.repaired_toJson]

theorem SampleStatus.repaired_toJson (p : SampleStatus) :
    (p.toJson : JSONValue D).repaired = p.repaired.toJson := repaired_object rfl rfl

theorem InterfaceMetrics.repaired_toJson (m : InterfaceMetrics D) :
    m.toJson.repaired = m.repaired.toJson := by
  refine repaired_object rfl ?_
  simp [repaired]

theorem DiskIoMetrics.repaired_toJson (m : DiskIoMetrics D) :
    m.toJson.repaired = m.repaired.toJson := by
  refine repaired_object rfl ?_
  simp [repaired]

theorem PressureMetrics.repaired_toJson (m : PressureMetrics D) :
    m.toJson.repaired = m.repaired.toJson := by
  refine repaired_object rfl ?_
  simp [repaired]

theorem CgroupMetrics.repaired_toJson (m : CgroupMetrics D) :
    m.toJson.repaired = m.repaired.toJson := by
  refine repaired_object rfl ?_
  simp [repaired, repaired_array PressureMetrics.repaired_toJson]

theorem TelemetryInfo.repaired_toJson (t : TelemetryInfo D) :
    t.toJson.repaired = t.repaired.toJson := by
  have hscope : Utf8.repair (lit "procfs-view") = lit "procfs-view" := repair_ascii rfl
  have hids : (JSONValue.array (t.cpuIds.map fun id => (.uint64 id.toUInt64 : JSONValue D))).repaired =
      .array (t.cpuIds.map fun id => .uint64 id.toUInt64) := repaired_numbers fun _ => rfl
  refine repaired_object rfl ?_
  simp [repaired, hscope, hids, repaired_array SampleStatus.repaired_toJson,
    repaired_array InterfaceMetrics.repaired_toJson, repaired_array DiskIoMetrics.repaired_toJson,
    repaired_array PressureMetrics.repaired_toJson, CgroupMetrics.repaired_toJson]

/-- The tree that `Encode` writes, repaired, is that of the repaired snapshot. -/
theorem repaired_encodeTree (s : SystemSnapshot D) :
    (encodeTree s).repaired = encodeTree s.repaired := by
  have htype : Utf8.repair (lit "snapshot") = lit "snapshot" := repair_ascii rfl
  refine repaired_object rfl ?_
  simp [SystemSnapshot.members, SystemSnapshot.repaired, TelemetryInfo.repaired_toJson,
    CPUMetrics.repaired_toJson, MemoryMetrics.repaired_toJson, DiskMetrics.repaired_toJson,
    NetworkMetrics.repaired_toJson, LoadavgMetrics.repaired_toJson,
    ProcessMetrics.repaired_toJson, htype]

/-! ## The parts -/

def Part.repaired : Part D → Part D
  | .string b => .string (Utf8.repair b)
  | .double d => .double d

theorem map_rateParts (rate : Option D) : (rateParts rate).map Part.repaired = rateParts rate := by
  cases rate <;> rfl

theorem map_doubles (ds : List D) :
    (ds.map Part.double).map Part.repaired = ds.map Part.double := by
  rw [List.map_map]
  exact List.map_congr_left fun _ _ => rfl

/-- The parts of the elements of a list. -/
theorem flatMap_repaired {α : Type} {parts : α → List (Part D)} {repair : α → α}
    (h : ∀ a, parts (repair a) = (parts a).map Part.repaired) (as : List α) :
    (as.map repair).flatMap parts = (as.flatMap parts).map Part.repaired := by
  rw [List.flatMap_map, List.map_flatMap]
  exact List.flatMap_congr fun a _ => h a

theorem SampleStatus.parts_repaired (p : SampleStatus) :
    (p.repaired.parts : List (Part D)) = p.parts.map Part.repaired := rfl

theorem InterfaceMetrics.parts_repaired (m : InterfaceMetrics D) :
    m.repaired.parts = m.parts.map Part.repaired := by
  simp only [parts, List.map_cons, List.map_append, map_rateParts]
  rfl

theorem DiskIoMetrics.parts_repaired (m : DiskIoMetrics D) :
    m.repaired.parts = m.parts.map Part.repaired := by
  simp only [parts, List.map_cons, List.map_append, map_rateParts]
  rfl

theorem PressureMetrics.parts_repaired (m : PressureMetrics D) :
    m.repaired.parts = m.parts.map Part.repaired := by
  simp only [parts, List.map_cons, List.map_append, map_rateParts]
  rfl

theorem CgroupMetrics.parts_repaired (m : CgroupMetrics D) :
    m.repaired.parts = m.parts.map Part.repaired := by
  simp only [parts, List.map_cons, List.map_append, map_rateParts,
    ← flatMap_repaired PressureMetrics.parts_repaired]
  rfl

theorem TelemetryInfo.parts_repaired (t : TelemetryInfo D) :
    t.repaired.parts = t.parts.map Part.repaired := by
  simp only [parts, List.map_cons, List.map_append, ← flatMap_repaired SampleStatus.parts_repaired,
    ← flatMap_repaired InterfaceMetrics.parts_repaired,
    ← flatMap_repaired DiskIoMetrics.parts_repaired,
    ← flatMap_repaired PressureMetrics.parts_repaired, ← CgroupMetrics.parts_repaired]
  rfl

theorem ProcessMetrics.parts_repaired (m : ProcessMetrics D) :
    m.repaired.parts = m.parts.map Part.repaired := by
  have hrow : ∀ p : ProcessInfo D, p.repaired.parts = p.parts.map Part.repaired := fun _ => rfl
  exact flatMap_repaired hrow m.processes

theorem SystemSnapshot.parts_repaired (s : SystemSnapshot D) :
    s.repaired.parts = s.parts.map Part.repaired := by
  have hcpu : s.cpu.parts.map Part.repaired = s.cpu.parts := by
    simp only [CPUMetrics.parts, List.map_cons, map_doubles]
    rfl
  simp only [parts, List.map_append, ← TelemetryInfo.parts_repaired, ← ProcessMetrics.parts_repaired,
    hcpu]
  rfl

/-- Only the doubles of a repaired snapshot can fail a condition. -/
theorem SystemSnapshot.clean_repaired {P : D → Prop} (s : SystemSnapshot D) :
    (∀ a ∈ s.repaired.parts, a.Clean P) ↔ ∀ d, Part.double d ∈ s.parts → P d := by
  rw [parts_repaired, List.forall_mem_map]
  constructor
  · exact fun h d hd => h _ hd
  · intro h a ha
    cases a with
    | string b => exact Utf8.wellFormed_repair b
    | double d => exact h d ha

end WebHtop.Common
