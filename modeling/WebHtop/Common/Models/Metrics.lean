import WebHtop.Common.Json.Value

/-!
# The metric sections

`CPUMetrics`, `MemoryMetrics`, `DiskMetrics`, `NetworkMetrics`, `LoadavgMetrics`,
`ProcessInfo` and `ProcessMetrics` of common/models with `ToJson` and `FromJson`. A
`FromJson` reads a field by its own lookup and keeps the default where the field is
missing or of another type.
-/

namespace WebHtop.Common

variable {D : Type} [Double D]

/-- `value[key]` and `AsUInt64`, or the default. -/
def uintOr (value : JSONValue D) (key : Bytes) (default : UInt64) : UInt64 :=
  (Access.uint value key).getD default

/-- `value[key]` and `AsDouble`, or the default. -/
def doubleOr (value : JSONValue D) (key : Bytes) : D :=
  ((value.field key).bind JSONValue.asDouble).getD zero

/-- `value[key]` and `AsInt64`. -/
def int64At (value : JSONValue D) (key : Bytes) : Option Int64 :=
  (value.field key).bind JSONValue.asInt64

/-- The elements of an array field. -/
def arrayOr (value : JSONValue D) (key : Bytes) : List (JSONValue D) :=
  ((value.field key).bind JSONValue.asArray).getD []

structure CPUMetrics (D : Type) where
  timestamp : UInt64
  coreCount : UInt32
  totalUsagePercent : D
  perCoreUsagePercent : List D
  frequencyMhz : D
deriving DecidableEq

namespace CPUMetrics

instance : Inhabited (CPUMetrics D) := ⟨⟨0, 0, zero, [], zero⟩⟩

def toJson (m : CPUMetrics D) : JSONValue D :=
  .object [
    (lit "timestamp", .uint64 m.timestamp),
    (lit "core_count", .uint64 m.coreCount.toUInt64),
    (lit "total_usage_percent", .double m.totalUsagePercent),
    (lit "frequency_mhz", .double m.frequencyMhz),
    (lit "per_core_usage_percent", .array (m.perCoreUsagePercent.map .double))]

def fromJson (value : JSONValue D) : CPUMetrics D where
  timestamp := uintOr value (lit "timestamp") 0
  coreCount := (uintOr value (lit "core_count") 0).toUInt32
  totalUsagePercent := doubleOr value (lit "total_usage_percent")
  perCoreUsagePercent :=
    (arrayOr value (lit "per_core_usage_percent")).filterMap JSONValue.asDouble
  frequencyMhz := doubleOr value (lit "frequency_mhz")

end CPUMetrics

structure MemoryMetrics (D : Type) where
  timestamp : UInt64
  totalBytes : UInt64
  availableBytes : UInt64
  usedBytes : UInt64
  usedPercent : D
deriving DecidableEq

namespace MemoryMetrics

instance : Inhabited (MemoryMetrics D) := ⟨⟨0, 0, 0, 0, zero⟩⟩

def toJson (m : MemoryMetrics D) : JSONValue D :=
  .object [
    (lit "timestamp", .uint64 m.timestamp),
    (lit "total_bytes", .uint64 m.totalBytes),
    (lit "available_bytes", .uint64 m.availableBytes),
    (lit "used_bytes", .uint64 m.usedBytes),
    (lit "used_percent", .double m.usedPercent)]

def fromJson (value : JSONValue D) : MemoryMetrics D where
  timestamp := uintOr value (lit "timestamp") 0
  totalBytes := uintOr value (lit "total_bytes") 0
  availableBytes := uintOr value (lit "available_bytes") 0
  usedBytes := uintOr value (lit "used_bytes") 0
  usedPercent := doubleOr value (lit "used_percent")

end MemoryMetrics

structure DiskMetrics (D : Type) where
  timestamp : UInt64
  totalBytes : UInt64
  availableBytes : UInt64
  usedBytes : UInt64
  usedPercent : D
deriving DecidableEq

namespace DiskMetrics

instance : Inhabited (DiskMetrics D) := ⟨⟨0, 0, 0, 0, zero⟩⟩

def toJson (m : DiskMetrics D) : JSONValue D :=
  .object [
    (lit "timestamp", .uint64 m.timestamp),
    (lit "total_bytes", .uint64 m.totalBytes),
    (lit "available_bytes", .uint64 m.availableBytes),
    (lit "used_bytes", .uint64 m.usedBytes),
    (lit "used_percent", .double m.usedPercent)]

def fromJson (value : JSONValue D) : DiskMetrics D where
  timestamp := uintOr value (lit "timestamp") 0
  totalBytes := uintOr value (lit "total_bytes") 0
  availableBytes := uintOr value (lit "available_bytes") 0
  usedBytes := uintOr value (lit "used_bytes") 0
  usedPercent := doubleOr value (lit "used_percent")

end DiskMetrics

structure NetworkMetrics (D : Type) where
  timestamp : UInt64
  rxBytesTotal : UInt64
  txBytesTotal : UInt64
  rxKbps : D
  txKbps : D
deriving DecidableEq

namespace NetworkMetrics

instance : Inhabited (NetworkMetrics D) := ⟨⟨0, 0, 0, zero, zero⟩⟩

def toJson (m : NetworkMetrics D) : JSONValue D :=
  .object [
    (lit "timestamp", .uint64 m.timestamp),
    (lit "rx_bytes_total", .uint64 m.rxBytesTotal),
    (lit "tx_bytes_total", .uint64 m.txBytesTotal),
    (lit "rx_kbps", .double m.rxKbps),
    (lit "tx_kbps", .double m.txKbps)]

def fromJson (value : JSONValue D) : NetworkMetrics D where
  timestamp := uintOr value (lit "timestamp") 0
  rxBytesTotal := uintOr value (lit "rx_bytes_total") 0
  txBytesTotal := uintOr value (lit "tx_bytes_total") 0
  rxKbps := doubleOr value (lit "rx_kbps")
  txKbps := doubleOr value (lit "tx_kbps")

end NetworkMetrics

structure LoadavgMetrics (D : Type) where
  timestamp : UInt64
  load1m : D
  load5m : D
  load15m : D
deriving DecidableEq

namespace LoadavgMetrics

instance : Inhabited (LoadavgMetrics D) := ⟨⟨0, zero, zero, zero⟩⟩

def toJson (m : LoadavgMetrics D) : JSONValue D :=
  .object [
    (lit "timestamp", .uint64 m.timestamp),
    (lit "load_1m", .double m.load1m),
    (lit "load_5m", .double m.load5m),
    (lit "load_15m", .double m.load15m)]

def fromJson (value : JSONValue D) : LoadavgMetrics D where
  timestamp := uintOr value (lit "timestamp") 0
  load1m := doubleOr value (lit "load_1m")
  load5m := doubleOr value (lit "load_5m")
  load15m := doubleOr value (lit "load_15m")

end LoadavgMetrics

/-- `enum class ProcessState : char` holds any byte. -/
abbrev ProcessState := Int8

/-- `ProcessState::UNKNOWN`, the character `?`. -/
def ProcessState.unknown : ProcessState := 63

structure ProcessInfo (D : Type) where
  starttimeTicks : UInt64
  cpuValid : Bool
  pid : Int32
  name : Bytes
  state : ProcessState
  cpuPercent : D
  memoryBytes : UInt64
  memoryPercent : D
  threadCount : UInt32
deriving DecidableEq

namespace ProcessInfo

def toJson (p : ProcessInfo D) : JSONValue D :=
  .object [
    (lit "starttime_ticks", .uint64 p.starttimeTicks),
    (lit "cpu_valid", .bool p.cpuValid),
    (lit "pid", .int64 p.pid.toInt64),
    (lit "name", .string p.name),
    (lit "state", .int64 p.state.toInt64),
    (lit "cpu_percent", .double p.cpuPercent),
    (lit "memory_bytes", .uint64 p.memoryBytes),
    (lit "memory_percent", .double p.memoryPercent),
    (lit "thread_count", .uint64 p.threadCount.toUInt64)]

def fromJson (value : JSONValue D) : ProcessInfo D where
  starttimeTicks := uintOr value (lit "starttime_ticks") 0
  cpuValid := Access.boolean value (lit "cpu_valid")
  pid := ((int64At value (lit "pid")).map Int64.toInt32).getD 0
  name := Access.text value (lit "name")
  state := ((int64At value (lit "state")).map Int64.toInt8).getD ProcessState.unknown
  cpuPercent := doubleOr value (lit "cpu_percent")
  memoryBytes := uintOr value (lit "memory_bytes") 0
  memoryPercent := doubleOr value (lit "memory_percent")
  threadCount := (uintOr value (lit "thread_count") 0).toUInt32

end ProcessInfo

structure ProcessMetrics (D : Type) where
  timestamp : UInt64
  totalProcesses : UInt64
  runningProcesses : UInt64
  processes : List (ProcessInfo D)
deriving DecidableEq

namespace ProcessMetrics

instance : Inhabited (ProcessMetrics D) := ⟨⟨0, 0, 0, []⟩⟩

def toJson (m : ProcessMetrics D) : JSONValue D :=
  .object [
    (lit "timestamp", .uint64 m.timestamp),
    (lit "total_processes", .uint64 m.totalProcesses),
    (lit "running_processes", .uint64 m.runningProcesses),
    (lit "processes", .array (m.processes.map ProcessInfo.toJson))]

def fromJson (value : JSONValue D) : ProcessMetrics D where
  timestamp := uintOr value (lit "timestamp") 0
  totalProcesses := uintOr value (lit "total_processes") 0
  runningProcesses := uintOr value (lit "running_processes") 0
  processes := (arrayOr value (lit "processes")).map ProcessInfo.fromJson

end ProcessMetrics
end WebHtop.Common
