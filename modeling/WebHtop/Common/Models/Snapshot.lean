import WebHtop.Common.Models.Metrics

/-!
# Telemetry and the snapshot

common/models/telemetry.cpp and system_snapshot.cpp. An optional rate is written as
`null` when it is absent, and read back absent unless it is a finite number.
-/

namespace WebHtop.Common

variable {D : Type} [Double D]

/-- `Make` on an optional. -/
def makeOptional {α : Type} (make : α → JSONValue D) (o : Option α) : JSONValue D :=
  (o.map make).getD .null

structure SampleStatus where
  name : Bytes
  state : Bytes
  error : Bytes
  durationUs : UInt64
deriving DecidableEq

namespace SampleStatus

def toJson (p : SampleStatus) : JSONValue D :=
  .object [
    (lit "name", .string p.name),
    (lit "state", .string p.state),
    (lit "error", .string p.error),
    (lit "duration_us", .uint64 p.durationUs)]

/-- The initialiser in `TelemetryInfo::FromJson`. -/
def fromJson (p : JSONValue D) : SampleStatus where
  name := Access.text p (lit "name")
  state := Access.text p (lit "state")
  error := Access.text p (lit "error")
  durationUs := uintOr p (lit "duration_us") 0

end SampleStatus

structure InterfaceMetrics (D : Type) where
  name : Bytes
  rxBytes : UInt64
  txBytes : UInt64
  rxErrors : UInt64
  txErrors : UInt64
  rxDropped : UInt64
  txDropped : UInt64
  rxBytesPerSecond : Option D
  txBytesPerSecond : Option D
deriving DecidableEq

namespace InterfaceMetrics

def toJson (m : InterfaceMetrics D) : JSONValue D :=
  .object [
    (lit "name", .string m.name),
    (lit "rx_bytes", .uint64 m.rxBytes),
    (lit "tx_bytes", .uint64 m.txBytes),
    (lit "rx_errors", .uint64 m.rxErrors),
    (lit "tx_errors", .uint64 m.txErrors),
    (lit "rx_dropped", .uint64 m.rxDropped),
    (lit "tx_dropped", .uint64 m.txDropped),
    (lit "rx_bytes_per_second", makeOptional .double m.rxBytesPerSecond),
    (lit "tx_bytes_per_second", makeOptional .double m.txBytesPerSecond)]

/-- The initialiser in `TelemetryInfo::FromJson`. -/
def fromJson (p : JSONValue D) : InterfaceMetrics D where
  name := Access.text p (lit "name")
  rxBytes := uintOr p (lit "rx_bytes") 0
  txBytes := uintOr p (lit "tx_bytes") 0
  rxErrors := uintOr p (lit "rx_errors") 0
  txErrors := uintOr p (lit "tx_errors") 0
  rxDropped := uintOr p (lit "rx_dropped") 0
  txDropped := uintOr p (lit "tx_dropped") 0
  rxBytesPerSecond := Access.number p (lit "rx_bytes_per_second")
  txBytesPerSecond := Access.number p (lit "tx_bytes_per_second")

end InterfaceMetrics

structure DiskIoMetrics (D : Type) where
  device : Bytes
  readBytesPerSecond : Option D
  writeBytesPerSecond : Option D
  iops : Option D
  busyPercent : Option D
deriving DecidableEq

namespace DiskIoMetrics

def toJson (m : DiskIoMetrics D) : JSONValue D :=
  .object [
    (lit "device", .string m.device),
    (lit "read_bytes_per_second", makeOptional .double m.readBytesPerSecond),
    (lit "write_bytes_per_second", makeOptional .double m.writeBytesPerSecond),
    (lit "iops", makeOptional .double m.iops),
    (lit "busy_percent", makeOptional .double m.busyPercent)]

/-- The initialiser in `TelemetryInfo::FromJson`. -/
def fromJson (p : JSONValue D) : DiskIoMetrics D where
  device := Access.text p (lit "device")
  readBytesPerSecond := Access.number p (lit "read_bytes_per_second")
  writeBytesPerSecond := Access.number p (lit "write_bytes_per_second")
  iops := Access.number p (lit "iops")
  busyPercent := Access.number p (lit "busy_percent")

end DiskIoMetrics

structure PressureMetrics (D : Type) where
  resource : Bytes
  someAvg10 : Option D
  someAvg60 : Option D
  someAvg300 : Option D
  fullAvg10 : Option D
deriving DecidableEq

namespace PressureMetrics

def toJson (m : PressureMetrics D) : JSONValue D :=
  .object [
    (lit "resource", .string m.resource),
    (lit "some_avg10", makeOptional .double m.someAvg10),
    (lit "some_avg60", makeOptional .double m.someAvg60),
    (lit "some_avg300", makeOptional .double m.someAvg300),
    (lit "full_avg10", makeOptional .double m.fullAvg10)]

/-- The initialiser in `ReadPressure`. -/
def fromJson (p : JSONValue D) : PressureMetrics D where
  resource := Access.text p (lit "resource")
  someAvg10 := Access.number p (lit "some_avg10")
  someAvg60 := Access.number p (lit "some_avg60")
  someAvg300 := Access.number p (lit "some_avg300")
  fullAvg10 := Access.number p (lit "full_avg10")

end PressureMetrics

structure CgroupMetrics (D : Type) where
  path : Bytes
  state : Bytes
  memoryCurrent : Option UInt64
  memoryMax : Option UInt64
  oomKill : Option UInt64
  nrThrottled : Option UInt64
  memoryUnlimited : Bool
  cpuQuotaCores : Option D
  cpuPercent : Option D
  throttledMsPerSecond : Option D
  cpuUnlimited : Bool
  pressure : List (PressureMetrics D)
deriving DecidableEq

namespace CgroupMetrics

instance : Inhabited (CgroupMetrics D) :=
  ⟨⟨[], lit "disabled", none, none, none, none, false, none, none, none, false, []⟩⟩

def toJson (m : CgroupMetrics D) : JSONValue D :=
  .object [
    (lit "path", .string m.path),
    (lit "state", .string m.state),
    (lit "memory_current", makeOptional .uint64 m.memoryCurrent),
    (lit "memory_max", makeOptional .uint64 m.memoryMax),
    (lit "memory_unlimited", .bool m.memoryUnlimited),
    (lit "cpu_quota_cores", makeOptional .double m.cpuQuotaCores),
    (lit "cpu_unlimited", .bool m.cpuUnlimited),
    (lit "cpu_percent", makeOptional .double m.cpuPercent),
    (lit "nr_throttled", makeOptional .uint64 m.nrThrottled),
    (lit "throttled_ms_per_second", makeOptional .double m.throttledMsPerSecond),
    (lit "oom_kill", makeOptional .uint64 m.oomKill),
    (lit "pressure", .array (m.pressure.map PressureMetrics.toJson))]

/-- The assignments in `TelemetryInfo::FromJson`. -/
def fromJson (p : JSONValue D) : CgroupMetrics D where
  path := Access.text p (lit "path")
  state := Access.text p (lit "state")
  memoryCurrent := Access.uint p (lit "memory_current")
  memoryMax := Access.uint p (lit "memory_max")
  oomKill := Access.uint p (lit "oom_kill")
  nrThrottled := Access.uint p (lit "nr_throttled")
  memoryUnlimited := Access.boolean p (lit "memory_unlimited")
  cpuQuotaCores := Access.number p (lit "cpu_quota_cores")
  cpuPercent := Access.number p (lit "cpu_percent")
  throttledMsPerSecond := Access.number p (lit "throttled_ms_per_second")
  cpuUnlimited := Access.boolean p (lit "cpu_unlimited")
  pressure := (arrayOr p (lit "pressure")).map PressureMetrics.fromJson

end CgroupMetrics

structure TelemetryInfo (D : Type) where
  intervalMs : UInt64
  sequence : UInt64
  collectionStartedAt : UInt64
  collectionFinishedAt : UInt64
  collectionUs : UInt64
  skippedTicks : UInt64
  processDenied : UInt64
  processVanished : UInt64
  processMalformed : UInt64
  processesTruncated : Bool
  instanceId : Bytes
  bootId : Bytes
  hostname : Bytes
  cpuIds : List UInt32
  collectors : List SampleStatus
  interfaces : List (InterfaceMetrics D)
  disks : List (DiskIoMetrics D)
  pressure : List (PressureMetrics D)
  cgroup : CgroupMetrics D
deriving DecidableEq

namespace TelemetryInfo

instance : Inhabited (TelemetryInfo D) :=
  ⟨⟨1000, 0, 0, 0, 0, 0, 0, 0, 0, false, [], [], [], [], [], [], [], [], default⟩⟩

def toJson (t : TelemetryInfo D) : JSONValue D :=
  .object [
    (lit "interval_ms", .uint64 t.intervalMs),
    (lit "sequence", .uint64 t.sequence),
    (lit "instance_id", .string t.instanceId),
    (lit "boot_id", .string t.bootId),
    (lit "hostname", .string t.hostname),
    (lit "scope", .string (lit "procfs-view")),
    (lit "collection_started_at", .uint64 t.collectionStartedAt),
    (lit "collection_finished_at", .uint64 t.collectionFinishedAt),
    (lit "collection_us", .uint64 t.collectionUs),
    (lit "skipped_ticks", .uint64 t.skippedTicks),
    (lit "process_denied", .uint64 t.processDenied),
    (lit "process_vanished", .uint64 t.processVanished),
    (lit "process_malformed", .uint64 t.processMalformed),
    (lit "processes_truncated", .bool t.processesTruncated),
    (lit "cpu_ids", .array (t.cpuIds.map fun id => .uint64 id.toUInt64)),
    (lit "collectors", .array (t.collectors.map SampleStatus.toJson)),
    (lit "interfaces", .array (t.interfaces.map InterfaceMetrics.toJson)),
    (lit "disks", .array (t.disks.map DiskIoMetrics.toJson)),
    (lit "pressure", .array (t.pressure.map PressureMetrics.toJson)),
    (lit "cgroup", t.cgroup.toJson)]

/-- An element of `cpu_ids` is kept when it is an integer of 32 bits. -/
def cpuId (v : JSONValue D) : Option UInt32 :=
  (v.asUInt64.filter fun n => n.toNat ≤ 2 ^ 32 - 1).map UInt64.toUInt32

def fromJson (v : JSONValue D) : TelemetryInfo D where
  intervalMs := uintOr v (lit "interval_ms") 1000
  sequence := uintOr v (lit "sequence") 0
  collectionStartedAt := uintOr v (lit "collection_started_at") 0
  collectionFinishedAt := uintOr v (lit "collection_finished_at") 0
  collectionUs := uintOr v (lit "collection_us") 0
  skippedTicks := uintOr v (lit "skipped_ticks") 0
  processDenied := uintOr v (lit "process_denied") 0
  processVanished := uintOr v (lit "process_vanished") 0
  processMalformed := uintOr v (lit "process_malformed") 0
  processesTruncated := Access.boolean v (lit "processes_truncated")
  instanceId := Access.text v (lit "instance_id")
  bootId := Access.text v (lit "boot_id")
  hostname := Access.text v (lit "hostname")
  cpuIds := (arrayOr v (lit "cpu_ids")).filterMap cpuId
  collectors := (arrayOr v (lit "collectors")).map SampleStatus.fromJson
  interfaces := (arrayOr v (lit "interfaces")).map InterfaceMetrics.fromJson
  disks := (arrayOr v (lit "disks")).map DiskIoMetrics.fromJson
  pressure := (arrayOr v (lit "pressure")).map PressureMetrics.fromJson
  cgroup := ((v.field (lit "cgroup")).map CgroupMetrics.fromJson).getD default

end TelemetryInfo

structure SystemSnapshot (D : Type) where
  telemetry : TelemetryInfo D
  timestamp : UInt64
  cpu : CPUMetrics D
  memory : MemoryMetrics D
  disk : DiskMetrics D
  network : NetworkMetrics D
  loadavg : LoadavgMetrics D
  process : ProcessMetrics D
deriving DecidableEq

namespace SystemSnapshot

/-- The members of the object that `ToJson` builds. -/
def members (s : SystemSnapshot D) : List (Bytes × JSONValue D) := [
  (lit "telemetry", s.telemetry.toJson),
  (lit "timestamp", .uint64 s.timestamp),
  (lit "cpu", s.cpu.toJson),
  (lit "memory", s.memory.toJson),
  (lit "disk", s.disk.toJson),
  (lit "network", s.network.toJson),
  (lit "loadavg", s.loadavg.toJson),
  (lit "process", s.process.toJson)]

def toJson (s : SystemSnapshot D) : JSONValue D := .object s.members

def fromJson (value : JSONValue D) : SystemSnapshot D where
  telemetry := ((value.field (lit "telemetry")).map TelemetryInfo.fromJson).getD default
  timestamp := uintOr value (lit "timestamp") 0
  cpu := ((value.field (lit "cpu")).map CPUMetrics.fromJson).getD default
  memory := ((value.field (lit "memory")).map MemoryMetrics.fromJson).getD default
  disk := ((value.field (lit "disk")).map DiskMetrics.fromJson).getD default
  network := ((value.field (lit "network")).map NetworkMetrics.fromJson).getD default
  loadavg := ((value.field (lit "loadavg")).map LoadavgMetrics.fromJson).getD default
  process := ((value.field (lit "process")).map ProcessMetrics.fromJson).getD default

end SystemSnapshot
end WebHtop.Common
