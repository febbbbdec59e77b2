import WebHtop.Common.Doubles
import WebHtop.Common.Models.Snapshot

/-!
# Snapshots as numbers

Every double of a snapshot is replaced by the number that it is. Two snapshots are equal in every
field when their values are: the two zeros compare equal.
-/

namespace WebHtop.Common

variable {D E : Type} (f : D → E)

def CPUMetrics.map (m : CPUMetrics D) : CPUMetrics E where
  timestamp := m.timestamp
  coreCount := m.coreCount
  totalUsagePercent := f m.totalUsagePercent
  perCoreUsagePercent := m.perCoreUsagePercent.map f
  frequencyMhz := f m.frequencyMhz

def MemoryMetrics.map (m : MemoryMetrics D) : MemoryMetrics E where
  timestamp := m.timestamp
  totalBytes := m.totalBytes
  availableBytes := m.availableBytes
  usedBytes := m.usedBytes
  usedPercent := f m.usedPercent

def DiskMetrics.map (m : DiskMetrics D) : DiskMetrics E where
  timestamp := m.timestamp
  totalBytes := m.totalBytes
  availableBytes := m.availableBytes
  usedBytes := m.usedBytes
  usedPercent := f m.usedPercent

def NetworkMetrics.map (m : NetworkMetrics D) : NetworkMetrics E where
  timestamp := m.timestamp
  rxBytesTotal := m.rxBytesTotal
  txBytesTotal := m.txBytesTotal
  rxKbps := f m.rxKbps
  txKbps := f m.txKbps

def LoadavgMetrics.map (m : LoadavgMetrics D) : LoadavgMetrics E where
  timestamp := m.timestamp
  load1m := f m.load1m
  load5m := f m.load5m
  load15m := f m.load15m

def ProcessInfo.map (p : ProcessInfo D) : ProcessInfo E where
  starttimeTicks := p.starttimeTicks
  cpuValid := p.cpuValid
  pid := p.pid
  name := p.name
  state := p.state
  cpuPercent := f p.cpuPercent
  memoryBytes := p.memoryBytes
  memoryPercent := f p.memoryPercent
  threadCount := p.threadCount

def ProcessMetrics.map (m : ProcessMetrics D) : ProcessMetrics E where
  timestamp := m.timestamp
  totalProcesses := m.totalProcesses
  runningProcesses := m.runningProcesses
  processes := m.processes.map (ProcessInfo.map f)

def InterfaceMetrics.map (m : InterfaceMetrics D) : InterfaceMetrics E where
  name := m.name
  rxBytes := m.rxBytes
  txBytes := m.txBytes
  rxErrors := m.rxErrors
  txErrors := m.txErrors
  rxDropped := m.rxDropped
  txDropped := m.txDropped
  rxBytesPerSecond := m.rxBytesPerSecond.map f
  txBytesPerSecond := m.txBytesPerSecond.map f

def DiskIoMetrics.map (m : DiskIoMetrics D) : DiskIoMetrics E where
  device := m.device
  readBytesPerSecond := m.readBytesPerSecond.map f
  writeBytesPerSecond := m.writeBytesPerSecond.map f
  iops := m.iops.map f
  busyPercent := m.busyPercent.map f

def PressureMetrics.map (m : PressureMetrics D) : PressureMetrics E where
  resource := m.resource
  someAvg10 := m.someAvg10.map f
  someAvg60 := m.someAvg60.map f
  someAvg300 := m.someAvg300.map f
  fullAvg10 := m.fullAvg10.map f

def CgroupMetrics.map (m : CgroupMetrics D) : CgroupMetrics E where
  path := m.path
  state := m.state
  memoryCurrent := m.memoryCurrent
  memoryMax := m.memoryMax
  oomKill := m.oomKill
  nrThrottled := m.nrThrottled
  memoryUnlimited := m.memoryUnlimited
  cpuQuotaCores := m.cpuQuotaCores.map f
  cpuPercent := m.cpuPercent.map f
  throttledMsPerSecond := m.throttledMsPerSecond.map f
  cpuUnlimited := m.cpuUnlimited
  pressure := m.pressure.map (PressureMetrics.map f)

def TelemetryInfo.map (t : TelemetryInfo D) : TelemetryInfo E where
  intervalMs := t.intervalMs
  sequence := t.sequence
  collectionStartedAt := t.collectionStartedAt
  collectionFinishedAt := t.collectionFinishedAt
  collectionUs := t.collectionUs
  skippedTicks := t.skippedTicks
  processDenied := t.processDenied
  processVanished := t.processVanished
  processMalformed := t.processMalformed
  processesTruncated := t.processesTruncated
  instanceId := t.instanceId
  bootId := t.bootId
  hostname := t.hostname
  cpuIds := t.cpuIds
  collectors := t.collectors
  interfaces := t.interfaces.map (InterfaceMetrics.map f)
  disks := t.disks.map (DiskIoMetrics.map f)
  pressure := t.pressure.map (PressureMetrics.map f)
  cgroup := t.cgroup.map f

def SystemSnapshot.map (s : SystemSnapshot D) : SystemSnapshot E where
  telemetry := s.telemetry.map f
  timestamp := s.timestamp
  cpu := s.cpu.map f
  memory := s.memory.map f
  disk := s.disk.map f
  network := s.network.map f
  loadavg := s.loadavg.map f
  process := s.process.map f

/-- Equal in every field. -/
def SystemSnapshot.Equal [Double D] [LawfulDouble D] (s t : SystemSnapshot D) : Prop :=
  s.map LawfulDouble.val = t.map LawfulDouble.val

end WebHtop.Common
