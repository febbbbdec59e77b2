import WebHtop.Common.Framing
import WebHtop.Common.Json.Parser
import WebHtop.Common.Json.Serialize
import WebHtop.Common.Models.Snapshot

/-!
# Snapshots as JSON documents

`Encode` and `Decode` of common/protocol.cpp. A refusal carries the text that the source
leaves in `error`; the checks stand in the order of the source, one function a block.
-/

namespace WebHtop.Common

variable {D : Type} [Double D]

def kVersion : UInt64 := 2

/-- The tree that `Encode` writes. -/
def encodeTree (snapshot : SystemSnapshot D) : JSONValue D :=
  .object (snapshot.members ++
    [(lit "protocol_version", .uint64 kVersion), (lit "type", .string (lit "snapshot"))])

/-- Encode; `none` where writing a double throws. -/
def encode (snapshot : SystemSnapshot D) : Option Bytes := (encodeTree snapshot).toString

namespace Decode

/-- `fail(reason)` unless the condition holds. -/
def require (condition : Bool) (reason : Bytes) : Except Bytes Unit :=
  if condition then .ok () else .error reason

/-- A loop of checks that ends at the first refusal. -/
def forEach {α : Type} (check : α → Except Bytes Unit) : List α → Except Bytes Unit
  | [] => .ok ()
  | a :: as =>
    match check a with
    | .error reason => .error reason
    | .ok () => forEach check as

/-- `*json::Field(v, key)`, for a field that a check before has found. -/
def deref (v : JSONValue D) (key : Bytes) : JSONValue D := (v.field key).getD .null

/-- A number below zero, or above 100. -/
def negative (n : D) : Bool := Double.lt n (Double.ofInt64 0)

def above100 (n : D) : Bool := Double.lt (Double.ofInt64 100) n

/-- `!n || *n < 0`, negated. -/
def nonnegative (n : Option D) : Bool := n.any fun n => !negative n

/-- `!n || *n < 0 || *n > 100`, negated. -/
def percentage (n : Option D) : Bool := n.any fun n => !negative n && !above100 n

def checkVersion (v : JSONValue D) : Except Bytes Unit :=
  require (Access.uint v (lit "protocol_version") = some kVersion ∧
    Access.text v (lit "type") = lit "snapshot") (lit "unsupported protocol/version")

def checkObject (v : JSONValue D) (key : Bytes) : Except Bytes Unit :=
  require ((v.field key).any JSONValue.isObject) (lit "missing object: " ++ key)

def checkTimestamp (v : JSONValue D) (key : Bytes) : Except Bytes Unit :=
  require (Access.uint (deref v key) (lit "timestamp")).isSome (lit "invalid timestamp: " ++ key)

def checkTopology (cpu : JSONValue D) : Except Bytes Unit :=
  require
    ((Access.uint cpu (lit "core_count")).any fun cores => cores.toNat ≤ 65536 ∧
      ((cpu.field (lit "per_core_usage_percent")).any fun perCore =>
        perCore.isArray ∧ perCore.size = cores.toNat))
    (lit "invalid CPU topology")

def checkTotalUsage (cpu : JSONValue D) : Except Bytes Unit :=
  require (percentage (Access.number cpu (lit "total_usage_percent")))
    (lit "invalid cpu.total_usage_percent")

def checkCoreUsage (n : JSONValue D) : Except Bytes Unit :=
  require (percentage (n.asDouble.filter Double.isFinite)) (lit "invalid per-core usage")

def checkAccounting (v : JSONValue D) (key : Bytes) : Except Bytes Unit :=
  let section_ := deref v key
  require
    ((Access.uint section_ (lit "total_bytes")).any fun total =>
      (Access.uint section_ (lit "available_bytes")).any fun available =>
        (Access.uint section_ (lit "used_bytes")).any fun used =>
          available ≤ total ∧ used ≤ total ∧
            percentage (Access.number section_ (lit "used_percent")))
    (lit "invalid byte accounting: " ++ key)

def checkRate (v : JSONValue D) (key : Bytes) : Except Bytes Unit :=
  require (nonnegative (Access.number (deref v (lit "network")) key))
    (lit "invalid network rate: " ++ key)

def checkLoad (v : JSONValue D) (key : Bytes) : Except Bytes Unit :=
  require (nonnegative (Access.number (deref v (lit "loadavg")) key)) (lit "invalid load: " ++ key)

def checkIdentity (t : JSONValue D) : Except Bytes Unit :=
  require ((Access.uint t (lit "sequence")).isSome ∧ Access.text t (lit "instance_id") ≠ [])
    (lit "missing snapshot identity")

def checkInterval (t : JSONValue D) : Except Bytes Unit :=
  require
    ((Access.uint t (lit "interval_ms")).any fun interval =>
      100 ≤ interval.toNat ∧ interval.toNat ≤ 60000)
    (lit "invalid sampling interval")

def checkProcessList (process : JSONValue D) : Except Bytes Unit :=
  require
    ((process.field (lit "processes")).any fun list => list.isArray ∧ list.size ≤ 10000)
    (lit "invalid process list")

def checkProcess (p : JSONValue D) : Except Bytes Unit :=
  require
    ((Access.uint p (lit "pid")).any (fun pid => pid ≠ 0 ∧ pid.toNat ≤ 2 ^ 31 - 1) ∧
      (Access.uint p (lit "thread_count")).any (fun threads => threads.toNat ≤ 2 ^ 32 - 1) ∧
      nonnegative (Access.number p (lit "cpu_percent")) ∧
      nonnegative (Access.number p (lit "memory_percent")) ∧
      (p.field (lit "name")).any JSONValue.isString ∧
      (Access.uint p (lit "state")).any (fun state => state.toNat ≤ 127) ∧
      (Access.uint p (lit "memory_bytes")).isSome ∧
      (Access.uint p (lit "starttime_ticks")).isSome)
    (lit "invalid process fields")

/-- The check on the snapshot itself. -/
def checkMetrics (s : SystemSnapshot D) : Except Bytes Unit :=
  require (Double.isFinite s.cpu.totalUsagePercent ∧ !negative s.cpu.totalUsagePercent ∧
    !above100 s.cpu.totalUsagePercent ∧ Double.isFinite s.memory.usedPercent ∧
    !negative s.memory.usedPercent ∧ !above100 s.memory.usedPercent) (lit "invalid metric range")

/-- The checks on the document. -/
def checkDocument (v : JSONValue D) : Except Bytes Unit := do
  checkVersion v
  forEach (checkObject v) [lit "cpu", lit "memory", lit "network", lit "disk", lit "process",
    lit "loadavg", lit "telemetry"]
  forEach (checkTimestamp v) [lit "cpu", lit "memory", lit "network", lit "disk", lit "process",
    lit "loadavg"]
  let cpu := deref v (lit "cpu")
  checkTopology cpu
  checkTotalUsage cpu
  forEach checkCoreUsage (arrayOr cpu (lit "per_core_usage_percent"))
  forEach (checkAccounting v) [lit "memory", lit "disk"]
  forEach (checkRate v) [lit "rx_kbps", lit "tx_kbps"]
  forEach (checkLoad v) [lit "load_1m", lit "load_5m", lit "load_15m"]
  let t := deref v (lit "telemetry")
  checkIdentity t
  checkInterval t
  let process := deref v (lit "process")
  checkProcessList process
  forEach checkProcess (arrayOr process (lit "processes"))

end Decode

open Decode

def decodeTree (v : JSONValue D) : Except Bytes (SystemSnapshot D) := do
  checkDocument v
  let s := SystemSnapshot.fromJson v
  checkMetrics s
  return s

/-- Decode: the snapshot, or the reason left in `error`. -/
def decode (payload : Bytes) : Except Bytes (SystemSnapshot D) :=
  match parse payload with
  | none => .error (lit "invalid JSON or parser limit exceeded")
  | some v => decodeTree v

end WebHtop.Common
