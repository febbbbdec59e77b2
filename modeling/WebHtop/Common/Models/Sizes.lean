import WebHtop.Common.Json.Compact
import WebHtop.Common.Models.Contents
import WebHtop.Common.Protocol

/-!
# The sizes of what a snapshot is written as

For each model the length of its compact text and the number of values in its tree, as sums over
its fields. The strings and doubles of the tree are those of the model.
-/

namespace WebHtop.Common

open WebHtop.Lib WebHtop.Lib.Json JSONValue

variable {D : Type} [Double D]

/-! ## Trees -/

/-- What a tree of known parts is written as. -/
structure Written (v : JSONValue D) (parts : List (Part D)) (width nodes depth : Nat) : Prop where
  clean : ∀ P : D → Prop, v.Clean P ↔ ∀ a ∈ parts, a.Clean P
  width : v.width = width
  nodes : v.nodes = nodes
  depth : v.depth ≤ depth
  keys : v.KeysWithin 4096

/-- The same of the values of an object. -/
structure WrittenMembers (ms : List (Bytes × JSONValue D)) (names : List Bytes)
    (parts : List (Part D)) (width nodes depth : Nat) : Prop where
  names : ms.map Prod.fst = names
  clean : ∀ P : D → Prop, (∀ m ∈ ms, m.2.Clean P) ↔ ∀ a ∈ parts, a.Clean P
  width : (ms.map fun m => m.2.width).sum = width
  nodes : nodesMembers ms = nodes
  depth : depthMembers ms ≤ depth
  keys : KeysWithinMembers 4096 ms

/-- A byte that is written as it is. -/
def isPlain (c : UInt8) : Bool :=
  Nat.ble 0x20 c.toNat && Nat.blt c.toNat 0x80 && !Nat.beq c.toNat 0x22 && !Nat.beq c.toNat 0x5C

theorem isPlain_iff {c : UInt8} :
    isPlain c = true ↔ 0x20 ≤ c.toNat ∧ c.toNat < 0x80 ∧ c ≠ ch '"' ∧ c ≠ ch '\\' := by
  have hne : ∀ d : UInt8, Nat.beq c.toNat d.toNat = false ↔ c ≠ d := by
    intro d
    rw [← Bool.not_eq_true, Nat.beq_eq, UInt8.toNat_inj]
  have hquote := hne (ch '"')
  have hslash := hne (ch '\\')
  simp only [isPlain, Bool.and_eq_true, Bool.not_eq_true', Nat.ble_eq, Nat.blt_eq, and_assoc]
  exact and_congr_right fun _ => and_congr_right fun _ => and_congr hquote hslash

theorem escapeLoop_plain {b : Bytes} (h : b.all isPlain = true) : escapeLoop b.length b = b := by
  induction b with
  | nil => rfl
  | cons c b ih =>
    rw [List.all_cons, Bool.and_eq_true, isPlain_iff] at h
    obtain ⟨⟨hlow, hhigh, hquote, hslash⟩, hb⟩ := h
    have hother : ∀ n : UInt8, n.toNat < 0x20 → c ≠ n := by
      rintro n hn rfl
      omega
    have hc : escapeAscii c = [c] := by
      unfold escapeAscii
      rw [if_neg hquote, if_neg hslash, if_neg (hother 8 (by decide)), if_neg (hother 12 (by decide)),
        if_neg (hother 10 (by decide)), if_neg (hother 13 (by decide)),
        if_neg (hother 9 (by decide)), if_neg fun hc => Nat.not_lt.mpr hlow (UInt8.lt_iff_toNat_lt.mp hc)]
    rw [List.length_cons, escapeLoop_ascii hhigh, hc, ih hb]
    rfl

theorem literalWidth_plain {b : Bytes} (h : b.all isPlain = true) : literalWidth b = b.length + 2 := by
  rw [literalWidth, appendEscapedString, escapeLoop_plain h]
  simp
  
/-- A number for a name. -/
def nameCode (name : Bytes) : Nat := name.foldl (fun n c => 256 * n + c.toNat) 0

/-- Distinct plain names, few enough for the parser, with the bytes of an object that are not in
its values. -/
def namesCheck (names : List Bytes) (width : Nat) : Bool :=
  !names.isEmpty && decide (names.map nameCode).Nodup && Nat.ble names.length 4096 &&
    (names.all fun key => key.all isPlain) &&
    Nat.beq (1 + (names.map fun key => key.length + 4).sum) width

theorem WrittenMembers.nil : WrittenMembers (D := D) [] [] [] 0 0 0 where
  names := rfl
  clean _ := iff_of_true (List.forall_mem_nil _) (List.forall_mem_nil _)
  width := rfl
  nodes := rfl
  depth := le_refl 0
  keys := trivial

theorem WrittenMembers.cons {key : Bytes} {v : JSONValue D} {ms : List (Bytes × JSONValue D)}
    {names : List Bytes} {p q : List (Part D)} {a b c d e f : Nat} (hv : Written v p a c e)
    (hms : WrittenMembers ms names q b d f) :
    WrittenMembers ((key, v) :: ms) (key :: names) (p ++ q) (a + b) (c + d) (max e f) where
  names := by rw [List.map_cons, hms.names]
  clean P := by
    rw [List.forall_mem_cons, List.forall_mem_append, hv.clean, hms.clean]
  width := by
    rw [List.map_cons, List.sum_cons, hv.width, hms.width]
  nodes := by
    rw [nodesMembers, hv.nodes, hms.nodes]
  depth := by
    rw [depthMembers]
    exact max_le_max hv.depth hms.depth
  keys := ⟨hv.keys, hms.keys⟩

theorem widthMembers_sum (ms : List (Bytes × JSONValue D)) :
    ((widthMembers ms).map (· + 1)).sum =
      ((ms.map Prod.fst).map fun key => literalWidth key + 2).sum +
        (ms.map fun m => m.2.width).sum := by
  induction ms with
  | nil => rfl
  | cons m ms ih =>
    simp only [widthMembers, List.map_cons, List.sum_cons, ih]
    omega

theorem Written.object {ms : List (Bytes × JSONValue D)} {names : List Bytes}
    {parts : List (Part D)} {width nodes depth : Nat} (fixed : Nat)
    (hnames : namesCheck names fixed = true) (h : WrittenMembers ms names parts width nodes depth) :
    Written (.object ms) parts (fixed + width) (nodes + 1) (depth + 1) := by
  rw [← h.names] at hnames
  simp only [namesCheck, Bool.and_eq_true, decide_eq_true_eq, Nat.beq_eq, Nat.ble_eq,
    Bool.not_eq_true', List.all_map, List.all_eq_true (l := ms)] at hnames
  obtain ⟨⟨⟨⟨hne, hcodes⟩, hlength⟩, hplain⟩, hwidth⟩ := hnames
  have hnodup := List.Nodup.of_map nameCode hcodes
  constructor
  · intro P
    rw [← h.clean, JSONValue.Clean, cleanMembers_iff]
    refine forall₂_congr fun m hm => and_iff_right ?_
    refine wellFormed_of_ascii (List.all_eq_true.mpr fun c hc => ?_)
    have hc := List.all_eq_true.mp (hplain m hm) c hc
    exact decide_eq_true (isPlain_iff.mp hc).2.1
  · have hsome : widthMembers ms ≠ [] := by
      cases ms with
      | nil => cases hne
      | cons m ms => simp [widthMembers]
    have hkeys : ((ms.map Prod.fst).map fun key => literalWidth key + 2).sum =
        ((ms.map Prod.fst).map fun key => key.length + 4).sum := by
      rw [List.map_map, List.map_map]
      refine congrArg List.sum (List.map_congr_left fun m hm => ?_)
      exact congrArg (· + 2) (literalWidth_plain (hplain m hm))
    rw [JSONValue.width, listWidth, if_neg hsome, widthMembers_sum, h.width, hkeys, ← hwidth]
    omega
  · exact congrArg (· + 1) h.nodes
  · exact Nat.succ_le_succ h.depth
  · exact ⟨hnodup, by simpa using hlength, h.keys⟩

/-- Equal parts and numbers in another form. -/
theorem Written.cast {v : JSONValue D} {p q : List (Part D)} {a b c d e : Nat}
    (h : Written v p a c e) (hparts : ∀ P : D → Prop, (∀ x ∈ p, x.Clean P) ↔ ∀ x ∈ q, x.Clean P)
    (hwidth : a = b) (hnodes : c = d) : Written v q b d e :=
  ⟨fun P => (h.clean P).trans (hparts P), h.width.trans hwidth, h.nodes.trans hnodes, h.depth,
    h.keys⟩

theorem Written.uint64 (u : UInt64) :
    Written (D := D) (.uint64 u) [] (intWidth u.toNat) 1 1 :=
  ⟨fun _ => iff_of_true trivial (List.forall_mem_nil _), rfl, rfl, le_refl 1, trivial⟩

theorem Written.int64 (i : Int64) : Written (D := D) (.int64 i) [] (intWidth i.toInt) 1 1 :=
  ⟨fun _ => iff_of_true trivial (List.forall_mem_nil _), rfl, rfl, le_refl 1, trivial⟩

theorem Written.bool (b : Bool) : Written (D := D) (.bool b) [] (boolWidth b) 1 1 :=
  ⟨fun _ => iff_of_true trivial (List.forall_mem_nil _), rfl, rfl, le_refl 1, trivial⟩

omit [Double D] in
theorem forall_mem_part (P : D → Prop) (a : Part D) : (∀ x ∈ [a], x.Clean P) ↔ a.Clean P :=
  List.forall_mem_singleton

theorem Written.string (s : Bytes) :
    Written (D := D) (.string s) [.string s] (literalWidth s) 1 1 :=
  ⟨fun P => (forall_mem_part P (.string s)).symm, rfl, rfl, le_refl 1, trivial⟩

theorem Written.double (d : D) : Written (.double d) [.double d] (doubleWidth d) 1 1 :=
  ⟨fun P => (forall_mem_part P (.double d)).symm, rfl, rfl, le_refl 1, trivial⟩

/-- `null` has four bytes. -/
def rateWidth (rate : Option D) : Nat := (rate.map doubleWidth).getD 4

def countWidth (count : Option UInt64) : Nat := (count.map fun u => intWidth u.toNat).getD 4

theorem Written.rate (rate : Option D) :
    Written (makeOptional .double rate) (rateParts rate) (rateWidth rate) 1 1 := by
  cases rate with
  | none => exact ⟨fun _ => iff_of_true trivial (List.forall_mem_nil _), rfl, rfl, le_refl 1, trivial⟩
  | some d => exact .double d

theorem Written.count (count : Option UInt64) :
    Written (D := D) (makeOptional .uint64 count) [] (countWidth count) 1 1 := by
  cases count with
  | none => exact ⟨fun _ => iff_of_true trivial (List.forall_mem_nil _), rfl, rfl, le_refl 1, trivial⟩
  | some u => exact .uint64 u

/-- Rows of one kind. -/
theorem Written.rows {α : Type} {toJson : α → JSONValue D} {parts : α → List (Part D)}
    {width : α → Nat} {nodes depth : Nat}
    (h : ∀ a, Written (toJson a) (parts a) (width a) nodes depth) (rows : List α) :
    Written (.array (rows.map toJson)) (rows.flatMap parts) (listWidth (rows.map width))
      (nodes * rows.length + 1) (depth + 1) := by
  constructor
  · intro P
    rw [JSONValue.Clean, cleanItems_iff, List.forall_mem_map]
    simp only [(h _).clean, List.mem_flatMap]
    constructor
    · rintro hrows x ⟨a, ha, hx⟩
      exact hrows a ha x hx
    · exact fun hrows a ha x hx => hrows x ⟨a, ha, hx⟩
  · have hwidths : widthItems (rows.map toJson) = rows.map width := by
      induction rows with
      | nil => rfl
      | cons a rows ih => rw [List.map_cons, widthItems, (h a).width, ih, List.map_cons]
    exact congrArg listWidth hwidths
  · have hnodes : nodesItems (rows.map toJson) = nodes * rows.length := by
      induction rows with
      | nil => rfl
      | cons a rows ih =>
        rw [List.map_cons, nodesItems, (h a).nodes, ih, List.length_cons, Nat.mul_succ, Nat.add_comm]
    exact congrArg (· + 1) hnodes
  · have hdepth : depthItems (rows.map toJson) ≤ depth := by
      induction rows with
      | nil => exact Nat.zero_le _
      | cons a rows ih => exact max_le (h a).depth ih
    exact Nat.succ_le_succ hdepth
  · show KeysWithinItems 4096 (rows.map toJson)
    induction rows with
    | nil => trivial
    | cons a rows ih => exact ⟨(h a).keys, ih⟩

/-! ## Sections -/

def CPUMetrics.width (m : CPUMetrics D) : Nat :=
  94 + intWidth m.timestamp.toNat + intWidth m.coreCount.toNat + doubleWidth m.totalUsagePercent +
    doubleWidth m.frequencyMhz + listWidth (m.perCoreUsagePercent.map doubleWidth)

theorem CPUMetrics.written (m : CPUMetrics D) :
    Written m.toJson m.parts m.width (6 + m.perCoreUsagePercent.length) 3 := by
  refine Written.cast (Written.object 94 (by rfl) (.cons (.uint64 _) (.cons (.uint64 _)
    (.cons (.double _) (.cons (.double _) (.cons (.rows .double _) .nil)))))) ?_ ?_ ?_
  · intro P
    simp only [parts, List.nil_append, List.append_nil, List.singleton_append,
      List.forall_mem_cons, List.forall_mem_flatMap, List.forall_mem_map, List.not_mem_nil,
      false_implies, implies_true, and_true]
  · have hcount : m.coreCount.toUInt64.toNat = m.coreCount.toNat := rfl
    rw [width, hcount]
    omega
  · omega

def MemoryMetrics.width (m : MemoryMetrics D) : Nat :=
  78 + intWidth m.timestamp.toNat + intWidth m.totalBytes.toNat + intWidth m.availableBytes.toNat +
    intWidth m.usedBytes.toNat + doubleWidth m.usedPercent

theorem MemoryMetrics.written (m : MemoryMetrics D) : Written m.toJson m.parts m.width 6 2 := by
  refine Written.cast (Written.object 78 (by rfl) (.cons (.uint64 _) (.cons (.uint64 _)
    (.cons (.uint64 _) (.cons (.uint64 _) (.cons (.double _) .nil)))))) (fun P => Iff.rfl) ?_ rfl
  rw [width]
  omega

def DiskMetrics.width (m : DiskMetrics D) : Nat :=
  78 + intWidth m.timestamp.toNat + intWidth m.totalBytes.toNat + intWidth m.availableBytes.toNat +
    intWidth m.usedBytes.toNat + doubleWidth m.usedPercent

theorem DiskMetrics.written (m : DiskMetrics D) : Written m.toJson m.parts m.width 6 2 := by
  refine Written.cast (Written.object 78 (by rfl) (.cons (.uint64 _) (.cons (.uint64 _)
    (.cons (.uint64 _) (.cons (.uint64 _) (.cons (.double _) .nil)))))) (fun P => Iff.rfl) ?_ rfl
  rw [width]
  omega

def NetworkMetrics.width (m : NetworkMetrics D) : Nat :=
  72 + intWidth m.timestamp.toNat + intWidth m.rxBytesTotal.toNat + intWidth m.txBytesTotal.toNat +
    doubleWidth m.rxKbps + doubleWidth m.txKbps

theorem NetworkMetrics.written (m : NetworkMetrics D) : Written m.toJson m.parts m.width 6 2 := by
  refine Written.cast (Written.object 72 (by rfl) (.cons (.uint64 _) (.cons (.uint64 _)
    (.cons (.uint64 _) (.cons (.double _) (.cons (.double _) .nil)))))) (fun P => Iff.rfl) ?_ rfl
  rw [width]
  omega

def LoadavgMetrics.width (m : LoadavgMetrics D) : Nat :=
  48 + intWidth m.timestamp.toNat + doubleWidth m.load1m + doubleWidth m.load5m +
    doubleWidth m.load15m

theorem LoadavgMetrics.written (m : LoadavgMetrics D) : Written m.toJson m.parts m.width 5 2 := by
  refine Written.cast (Written.object 48 (by rfl) (.cons (.uint64 _) (.cons (.double _)
    (.cons (.double _) (.cons (.double _) .nil))))) (fun P => Iff.rfl) ?_ rfl
  rw [width]
  omega

def ProcessInfo.width (p : ProcessInfo D) : Nat :=
  122 + intWidth p.starttimeTicks.toNat + boolWidth p.cpuValid + intWidth p.pid.toInt +
    literalWidth p.name + intWidth p.state.toInt + doubleWidth p.cpuPercent +
    intWidth p.memoryBytes.toNat + doubleWidth p.memoryPercent + intWidth p.threadCount.toNat

theorem ProcessInfo.written (p : ProcessInfo D) : Written p.toJson p.parts p.width 10 2 := by
  refine Written.cast (Written.object 122 (by rfl) (.cons (.uint64 _) (.cons (.bool _)
    (.cons (.int64 _) (.cons (.string _) (.cons (.int64 _) (.cons (.double _) (.cons (.uint64 _)
    (.cons (.double _) (.cons (.uint64 _) .nil)))))))))) (fun P => Iff.rfl) ?_ rfl
  have hthreads : p.threadCount.toUInt64.toNat = p.threadCount.toNat := rfl
  rw [width, Int32.toInt_toInt64, Int8.toInt_toInt64, hthreads]
  omega

def ProcessMetrics.width (m : ProcessMetrics D) : Nat :=
  67 + intWidth m.timestamp.toNat + intWidth m.totalProcesses.toNat +
    intWidth m.runningProcesses.toNat + listWidth (m.processes.map ProcessInfo.width)

theorem ProcessMetrics.written (m : ProcessMetrics D) :
    Written m.toJson m.parts m.width (5 + 10 * m.processes.length) 4 := by
  refine Written.cast (Written.object 67 (by rfl) (.cons (.uint64 _) (.cons (.uint64 _)
    (.cons (.uint64 _) (.cons (.rows ProcessInfo.written _) .nil))))) ?_ ?_ ?_
  · intro P
    simp [parts]
  · rw [width]
    omega
  · omega

/-! ## Telemetry -/

def SampleStatus.width (p : SampleStatus) : Nat :=
  42 + literalWidth p.name + literalWidth p.state + literalWidth p.error +
    intWidth p.durationUs.toNat

theorem SampleStatus.written (p : SampleStatus) :
    Written (D := D) p.toJson p.parts p.width 5 2 := by
  refine Written.cast (Written.object 42 (by rfl) (.cons (.string _) (.cons (.string _)
    (.cons (.string _) (.cons (.uint64 _) .nil))))) (fun P => Iff.rfl) ?_ rfl
  rw [width]
  omega

def InterfaceMetrics.width (m : InterfaceMetrics D) : Nat :=
  133 + literalWidth m.name + intWidth m.rxBytes.toNat + intWidth m.txBytes.toNat +
    intWidth m.rxErrors.toNat + intWidth m.txErrors.toNat + intWidth m.rxDropped.toNat +
    intWidth m.txDropped.toNat + rateWidth m.rxBytesPerSecond + rateWidth m.txBytesPerSecond

theorem InterfaceMetrics.written (m : InterfaceMetrics D) :
    Written m.toJson m.parts m.width 10 2 := by
  refine Written.cast (Written.object 133 (by rfl) (.cons (.string _) (.cons (.uint64 _)
    (.cons (.uint64 _) (.cons (.uint64 _) (.cons (.uint64 _) (.cons (.uint64 _) (.cons (.uint64 _)
    (.cons (.rate _) (.cons (.rate _) .nil)))))))))) ?_ ?_ rfl
  · intro P
    simp [parts]
  · rw [width]
    omega

def DiskIoMetrics.width (m : DiskIoMetrics D) : Nat :=
  86 + literalWidth m.device + rateWidth m.readBytesPerSecond + rateWidth m.writeBytesPerSecond +
    rateWidth m.iops + rateWidth m.busyPercent

theorem DiskIoMetrics.written (m : DiskIoMetrics D) : Written m.toJson m.parts m.width 6 2 := by
  refine Written.cast (Written.object 86 (by rfl) (.cons (.string _) (.cons (.rate _)
    (.cons (.rate _) (.cons (.rate _) (.cons (.rate _) .nil)))))) ?_ ?_ rfl
  · intro P
    simp [parts]
  · rw [width]
    omega

def PressureMetrics.width (m : PressureMetrics D) : Nat :=
  70 + literalWidth m.resource + rateWidth m.someAvg10 + rateWidth m.someAvg60 +
    rateWidth m.someAvg300 + rateWidth m.fullAvg10

theorem PressureMetrics.written (m : PressureMetrics D) : Written m.toJson m.parts m.width 6 2 := by
  refine Written.cast (Written.object 70 (by rfl) (.cons (.string _) (.cons (.rate _)
    (.cons (.rate _) (.cons (.rate _) (.cons (.rate _) .nil)))))) ?_ ?_ rfl
  · intro P
    simp [parts]
  · rw [width]
    omega

def CgroupMetrics.width (m : CgroupMetrics D) : Nat :=
  188 + literalWidth m.path + literalWidth m.state + countWidth m.memoryCurrent +
    countWidth m.memoryMax + boolWidth m.memoryUnlimited + rateWidth m.cpuQuotaCores +
    boolWidth m.cpuUnlimited + rateWidth m.cpuPercent + countWidth m.nrThrottled +
    rateWidth m.throttledMsPerSecond + countWidth m.oomKill +
    listWidth (m.pressure.map PressureMetrics.width)

theorem CgroupMetrics.written (m : CgroupMetrics D) :
    Written m.toJson m.parts m.width (13 + 6 * m.pressure.length) 4 := by
  refine Written.cast (Written.object 188 (by rfl) (.cons (.string _) (.cons (.string _)
    (.cons (.count _) (.cons (.count _) (.cons (.bool _) (.cons (.rate _) (.cons (.bool _)
    (.cons (.rate _) (.cons (.count _) (.cons (.rate _) (.cons (.count _)
    (.cons (.rows PressureMetrics.written _) .nil))))))))))))) ?_ ?_ ?_
  · intro P
    simp [parts]
  · rw [width]
    omega
  · omega

/-- `scope` has 13 bytes. -/
def TelemetryInfo.width (t : TelemetryInfo D) : Nat :=
  325 + intWidth t.intervalMs.toNat + intWidth t.sequence.toNat + literalWidth t.instanceId +
    literalWidth t.bootId + literalWidth t.hostname + intWidth t.collectionStartedAt.toNat +
    intWidth t.collectionFinishedAt.toNat + intWidth t.collectionUs.toNat +
    intWidth t.skippedTicks.toNat + intWidth t.processDenied.toNat +
    intWidth t.processVanished.toNat + intWidth t.processMalformed.toNat +
    boolWidth t.processesTruncated + listWidth (t.cpuIds.map fun id => intWidth id.toNat) +
    listWidth (t.collectors.map SampleStatus.width) +
    listWidth (t.interfaces.map InterfaceMetrics.width) +
    listWidth (t.disks.map DiskIoMetrics.width) +
    listWidth (t.pressure.map PressureMetrics.width) + t.cgroup.width

/-- The values of the tree; a row of interfaces has ten. -/
def TelemetryInfo.nodes (t : TelemetryInfo D) : Nat :=
  33 + t.cpuIds.length + 5 * t.collectors.length + 10 * t.interfaces.length +
    6 * t.disks.length + 6 * t.pressure.length + 6 * t.cgroup.pressure.length

theorem TelemetryInfo.written (t : TelemetryInfo D) :
    Written t.toJson t.parts t.width t.nodes 5 := by
  have hids : ∀ id : UInt32, Written (D := D) (.uint64 id.toUInt64) [] (intWidth id.toNat) 1 1 :=
    fun id => .uint64 _
  have hscope : ∀ P : D → Prop, (Part.string (lit "procfs-view")).Clean P :=
    fun P => wellFormed_of_ascii rfl
  refine Written.cast (Written.object 312 (by rfl) (.cons (.uint64 _) (.cons (.uint64 _)
    (.cons (.string _) (.cons (.string _) (.cons (.string _) (.cons (.string _) (.cons (.uint64 _)
    (.cons (.uint64 _) (.cons (.uint64 _) (.cons (.uint64 _) (.cons (.uint64 _) (.cons (.uint64 _)
    (.cons (.uint64 _) (.cons (.bool _) (.cons (.rows hids _)
    (.cons (.rows SampleStatus.written _) (.cons (.rows InterfaceMetrics.written _)
    (.cons (.rows DiskIoMetrics.written _) (.cons (.rows PressureMetrics.written _)
    (.cons t.cgroup.written .nil))))))))))))))))))))) ?_ ?_ ?_
  · intro P
    simp [parts, hscope P]
  · have hwidth : literalWidth (lit "procfs-view") = 13 := literalWidth_plain rfl
    rw [width, hwidth]
    ring
  · rw [nodes]
    with_reducible omega

/-! ## The snapshot -/

/-- The length of the text of `Encode`. -/
def SystemSnapshot.width (s : SystemSnapshot D) : Nat :=
  124 + s.telemetry.width + intWidth s.timestamp.toNat + s.cpu.width + s.memory.width +
    s.disk.width + s.network.width + s.loadavg.width + s.process.width

/-- The number of values in the tree of `Encode`. -/
def SystemSnapshot.nodes (s : SystemSnapshot D) : Nat :=
  38 + s.telemetry.nodes + s.cpu.perCoreUsagePercent.length + 10 * s.process.processes.length

theorem SystemSnapshot.written (s : SystemSnapshot D) :
    Written (encodeTree s) s.parts s.width s.nodes 6 := by
  have htype : ∀ P : D → Prop, (Part.string (lit "snapshot")).Clean P :=
    fun P => wellFormed_of_ascii rfl
  refine Written.cast (Written.object 113 (by rfl) (.cons s.telemetry.written (.cons (.uint64 _)
    (.cons s.cpu.written (.cons s.memory.written (.cons s.disk.written (.cons s.network.written
    (.cons s.loadavg.written (.cons s.process.written (.cons (.uint64 _) (.cons (.string _)
    .nil))))))))))) ?_ ?_ ?_
  · intro P
    simp only [parts, List.nil_append, List.append_nil, List.forall_mem_append, forall_mem_part,
      htype P, and_true, and_assoc]
  · have hversion : intWidth kVersion.toNat = 1 := rfl
    have hwidth : literalWidth (lit "snapshot") = 10 := literalWidth_plain rfl
    rw [width, hversion, hwidth]
    with_reducible omega
  · rw [nodes]
    with_reducible omega

end WebHtop.Common
