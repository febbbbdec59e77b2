import WebHtop.Server.Collectors.LinuxSamples

/-!
# The metrics collector

`MetricsCollector` of server/collectors/metrics_collector.cpp over the boundary that
`LinuxSource` draws. What the files contain, when they are read and when a stop is requested
are inputs of a generation; a file that is read twice in one generation reads the same.
The sections write disjoint parts of the snapshot, each here the value of its function, next
to the baseline it leaves; an exception keeps what the section has written before it.
-/

namespace WebHtop.Server.Collectors

open WebHtop.Lib WebHtop.Common

/-! ## Inputs -/

/-- The text of a file, or an error number. -/
abbrev FileResult := Except Int32 Bytes

/-- The fields of `struct statvfs` that are read. -/
structure Statvfs where
  blocks : UInt64
  bfree : UInt64
  bavail : UInt64
  frsize : UInt64

/-- `std::vector<int>`, within its max_size. -/
abbrev Pids := {pids : List Int32 // pids.length < 2 ^ 61}

structure LinuxSource where
  proc : Bytes → FileResult
  sys : Bytes → FileResult
  cgroup : Bytes → FileResult
  pids : Except Int32 Pids
  filesystem : Except Int32 Statvfs
  cgroupIdentity : Bytes
  /-- The text of an error in `std::generic_category`. -/
  message : Int32 → Bytes

/-- The members of `ServerConfig` that the collector reads. -/
structure ServerConfig where
  pollInterval : UInt64 := 1000
  maxProcesses : Nat := 1024
  cgroupPath : Bytes := []
  includeLoopback : Bool := false

/-- A point of `steady_clock` in nanoseconds; the distance of two fits 64 bits. -/
abbrev TimePoint := {t : Int // -2 ^ 62 ≤ t ∧ t < 2 ^ 62}

/-- The zero of the clock. -/
def epoch : TimePoint := ⟨0, by decide⟩

/-- One call of Collect: the files, the time, whether a stop is requested when the loop
stands at the n-th process, and the readings of the other clocks. -/
structure Generation where
  source : LinuxSource
  now : TimePoint
  stopRequested : Nat → Bool := fun _ => false
  timestamp : UInt64 := 0
  finishedAt : UInt64 := 0
  durationUs : Bytes → UInt64 := fun _ => 0
  collectionUs : UInt64 := 0

/-! ## The collector's memory -/

structure NetSample where
  identity : Bytes
  rx : UInt64
  tx : UInt64

/-- The five counters that are kept of a disk, in the order of the array. -/
structure DiskCounters where
  sectorsRead : UInt64
  sectorsWritten : UInt64
  reads : UInt64
  writes : UInt64
  busy : UInt64

structure MetricsCollector (D : Type) where
  config : ServerConfig
  clockTicks : Int64
  pageSize : Int64
  ticks_pos : 0 < clockTicks.toInt
  page_pos : 0 < pageSize.toInt
  bootId : Bytes
  hostname : Bytes
  cpuPrevious : CpuSample := []
  processesPrevious : Table Int32 (UInt64 × UInt64) := []
  networkPrevious : Table Bytes NetSample := []
  disksPrevious : Table Bytes DiskCounters := []
  cgUsage : Option UInt64 := none
  cgThrottled : Option UInt64 := none
  cgIdentity : Bytes := []
  previousTime : Option TimePoint := none
  seconds : D

variable {D : Type} [Arithmetic D]

/-! ## Small helpers -/

def trim (s : Bytes) : Bytes := (s.reverse.dropWhile Istream.isSpace).reverse

def keyValue (line : Bytes) : Option (Bytes × UInt64) :=
  (Istream.word line).bind fun (key, rest) =>
    (Istream.unsigned (2 ^ 64) rest).map fun (value, _) =>
      (if key.getLast? = some (ch ':') then key.dropLast else key, UInt64.ofNat value)

def keyValues (text : Bytes) : Table Bytes UInt64 :=
  (Istream.lines text).foldl
    (fun result line =>
      match keyValue line with
      | some (key, value) => Table.assign result key value
      | none => result)
    []

def scalar : FileResult → Option UInt64
  | .error _ => none
  | .ok text => (parseUnsigned (2 ^ 64) (trim text)).map UInt64.ofNat

/-- What a section has written when it ends, the state it reports, and the text of the
exception that ends it. -/
structure Outcome (α : Type) where
  value : α
  state : Bytes := lit "ok"
  error : Option Bytes := none

namespace MetricsCollector

/-- The constructor; `none` is the exception for sysconf. -/
def init (config : ServerConfig) (source : LinuxSource) (clockTicks pageSize : Int64)
    (hostname : Bytes) : Option (MetricsCollector D) :=
  if h : 0 < clockTicks.toInt ∧ 0 < pageSize.toInt then
    let bootId :=
      match source.proc (lit "sys/kernel/random/boot_id") with
      | .ok text => trim text
      | .error _ => []
    some
      { config, clockTicks, pageSize, ticks_pos := h.1, page_pos := h.2, bootId, hostname
        seconds := zero }
  else none

/-! ## CPU and memory -/

/-- Cpu: the metrics and the CPU ids. -/
def cpu (c : MetricsCollector D) (g : Generation) : Outcome (CPUMetrics D × List UInt32) × CpuSample :=
  match g.source.proc (lit "stat") with
  | .error e => ({ value := default, error := g.source.message e }, [])
  | .ok text =>
    let now := parseCpu text
    if (now.get (-1)).isNone then
      ({ value := default, error := lit "aggregate CPU line missing or malformed" }, [])
    else
      let usages : List (Int × Option D) :=
        now.map fun e => (e.1, (c.cpuPrevious.get e.1).bind fun previous => cpuUsage e.2 previous)
      let cores := usages.filter fun e => e.1 ≠ -1
      let total := (usages.find? fun e => e.1 = -1).bind Prod.snd
      let metrics : CPUMetrics D :=
        { timestamp := g.timestamp
          coreCount := UInt32.ofNat (now.length - 1)
          totalUsagePercent := total.getD zero
          perCoreUsagePercent := cores.map fun e => e.2.getD zero
          frequencyMhz := zero }
      let state :=
        if usages.all fun e => e.2.isSome then lit "ok"
        else if c.cpuPrevious.isEmpty then lit "warming_up"
        else lit "partial"
      ({ value := (metrics, cores.map fun e => UInt32.ofNat e.1.toNat), state }, now)

/-- `100.0 * part / whole`. -/
def percent (part whole : UInt64) : D :=
  Arithmetic.div (Arithmetic.mul (Arithmetic.ofInt 100) (Double.ofUInt64 part)) (Double.ofUInt64 whole)

/-- MemTotal and MemAvailable, in KiB, when the section accepts them. -/
def memoryValues (text : Bytes) : Option (UInt64 × UInt64) :=
  let values := keyValues text
  (values.get (lit "MemTotal")).bind fun total =>
    (values.get (lit "MemAvailable")).bind fun available =>
      if total = 0 ∨ available > total ∨ total.toNat > (2 ^ 64 - 1) / 1024 then none
      else some (total, available)

def memory (g : Generation) : Outcome (MemoryMetrics D) :=
  match g.source.proc (lit "meminfo") with
  | .error e => { value := default, error := g.source.message e }
  | .ok text =>
    match memoryValues text with
    | none => { value := default, error := lit "MemTotal/MemAvailable missing or invalid" }
    | some (total, available) =>
      let totalBytes := total * 1024
      let availableBytes := available * 1024
      let usedBytes := totalBytes - availableBytes
      { value :=
          { timestamp := g.timestamp
            totalBytes
            availableBytes
            usedBytes
            usedPercent := percent usedBytes totalBytes } }

/-! ## Processes -/

inductive Visit where
  | denied
  | vanished
  | malformed
  | sampled (p : ProcessSample)

/-- The record of a process, as far as the row is concerned. -/
def visit (g : Generation) (c : MetricsCollector D) (pid : Int32) : Visit :=
  match g.source.proc (intToString pid.toInt ++ lit "/stat") with
  | .error e =>
    if e = 13 ∨ e = 1 then .denied  -- EACCES, EPERM
    else if e = 2 ∨ e = 3 then .vanished  -- ENOENT, ESRCH
    else .malformed
  | .ok text =>
    match parseProcess text with
    | none => .malformed
    | some p =>
      if p.pid ≠ pid ∨ p.rssPages.toNat > (2 ^ 64 - 1) / c.pageSize.toInt.toNat then .malformed
      else .sampled p

/-- The CPU share since the last generation, for the process that was there then. -/
def processRate (c : MetricsCollector D) (pid : Int32) (p : ProcessSample) : Option D :=
  (c.processesPrevious.get pid).bind fun old =>
    if old.1 = p.starttime then
      (counterRate p.ticks old.2 c.seconds).map fun rate =>
        Arithmetic.div (Arithmetic.mul rate (Arithmetic.ofInt 100)) (Double.ofInt64 c.clockTicks)
    else none

def processRow (c : MetricsCollector D) (totalBytes : UInt64) (pid : Int32) (p : ProcessSample) :
    ProcessInfo D :=
  let memoryBytes := p.rssPages * c.pageSize.toUInt64
  let rate := c.processRate pid p
  { starttimeTicks := p.starttime
    cpuValid := rate.isSome
    pid
    name := p.name
    state := p.state.toInt8
    cpuPercent := rate.getD zero
    memoryBytes
    memoryPercent := if totalBytes ≠ 0 then percent memoryBytes totalBytes else zero
    threadCount := p.threads }

/-- What the loop over the processes changes. -/
structure ProcessLoop (D : Type) where
  denied : UInt64 := 0
  vanished : UInt64 := 0
  malformed : UInt64 := 0
  total : UInt64 := 0
  running : UInt64 := 0
  rows : List (ProcessInfo D) := []
  next : Table Int32 (UInt64 × UInt64) := []
  stopped : Bool := false

def visitAll (g : Generation) (c : MetricsCollector D) (totalBytes : UInt64) :
    Nat → List Int32 → ProcessLoop D → ProcessLoop D
  | _, [], l => l
  | i, pid :: pids, l =>
    if g.stopRequested i then { l with stopped := true }
    else
      visitAll g c totalBytes (i + 1) pids
        (match visit g c pid with
        | .denied => { l with denied := l.denied + 1 }
        | .vanished => { l with vanished := l.vanished + 1 }
        | .malformed => { l with malformed := l.malformed + 1 }
        | .sampled p =>
          { l with
            next := l.next.assign pid (p.starttime, p.ticks)
            total := l.total + 1
            running := if p.state = ch 'R' then l.running + 1 else l.running
            rows := l.rows ++ [c.processRow totalBytes pid p] })

/-- The order of the published rows. -/
def better (a b : ProcessInfo D) : Bool :=
  if Arithmetic.ne a.cpuPercent b.cpuPercent then Double.lt b.cpuPercent a.cpuPercent
  else if a.memoryBytes ≠ b.memoryBytes then b.memoryBytes < a.memoryBytes
  else a.pid.toInt < b.pid.toInt

/-- `std::partial_sort` and `resize`. -/
def firstRows (count : Nat) (rows : List (ProcessInfo D)) : List (ProcessInfo D) :=
  (rows.mergeSort fun a b => !better b a).take count

/-- What the section writes, the counters of the telemetry among it. -/
structure ProcessPart (D : Type) where
  process : ProcessMetrics D
  denied : UInt64
  vanished : UInt64
  malformed : UInt64
  truncated : Bool

def processes (g : Generation) (c : MetricsCollector D) (totalBytes : UInt64) :
    Outcome (ProcessPart D) × Table Int32 (UInt64 × UInt64) :=
  match g.source.pids with
  | .error e =>
    ({ value := { process := default, denied := 0, vanished := 0, malformed := 0, truncated := false }
       error := g.source.message e }, [])
  | .ok pids =>
    let l := visitAll g c totalBytes 0 pids.val {}
    let count := min c.config.maxProcesses l.rows.length
    ({ value :=
        { process :=
            { timestamp := g.timestamp
              totalProcesses := l.total
              runningProcesses := l.running
              processes := firstRows count l.rows }
          denied := l.denied
          vanished := l.vanished
          malformed := l.malformed
          truncated := decide (count < l.rows.length) }
       state :=
        if l.stopped ∨ l.denied ≠ 0 ∨ l.malformed ≠ 0 then lit "partial" else lit "ok" },
      l.next)

/-! ## Network -/

/-- The text behind its blanks at both ends; `none` when nothing else is there. -/
def interfaceName (s : Bytes) : Option Bytes :=
  match (trim s).dropWhile isBlank with
  | [] => none
  | name => some name

/-- A line of net/dev with its counters. -/
structure InterfaceRow where
  name : Bytes
  identity : Bytes
  fields : List UInt64

inductive InterfaceLine where
  | skipped
  | malformed
  | row (r : InterfaceRow)

def interfaceLine (g : Generation) (config : ServerConfig) (line : Bytes) : InterfaceLine :=
  match find line (ch ':') with
  | none => .skipped
  | some colon =>
    match interfaceName (line.take colon) with
    | none => .skipped
    | some name =>
      if name = lit "lo" ∧ !config.includeLoopback then .skipped
      else
        match Istream.unsigneds (2 ^ 64) 16 (line.drop (colon + 1)) with
        | none => .malformed
        | some fields =>
          let identity :=
            match g.source.sys (lit "class/net/" ++ name ++ lit "/ifindex") with
            | .ok text => trim text
            | .error _ => name
          .row { name, identity, fields := fields.map UInt64.ofNat }

def interfaceMetrics (c : MetricsCollector D) (r : InterfaceRow) : InterfaceMetrics D :=
  let field := fun i => r.fields.getD i 0
  let old := (c.networkPrevious.get r.name).filter fun p => p.identity = r.identity
  { name := r.name
    rxBytes := field 0
    txBytes := field 8
    rxErrors := field 2
    txErrors := field 10
    rxDropped := field 3
    txDropped := field 11
    rxBytesPerSecond := old.bind fun p => counterRate (field 0) p.rx c.seconds
    txBytesPerSecond := old.bind fun p => counterRate (field 8) p.tx c.seconds }

/-- What the loop over the interfaces changes. -/
structure NetworkLoop (D : Type) where
  network : NetworkMetrics D
  interfaces : List (InterfaceMetrics D)
  next : Table Bytes NetSample := []
  valid : Bool := true

def networkLine (g : Generation) (c : MetricsCollector D) (l : NetworkLoop D) (line : Bytes) :
    NetworkLoop D :=
  match interfaceLine g c.config line with
  | .skipped => l
  | .malformed => { l with valid := false }
  | .row r =>
    let m := c.interfaceMetrics r
    let kbps := fun (rate : Option D) =>
      Arithmetic.div (rate.getD zero) (Arithmetic.ofInt 1024)
    { network :=
        { l.network with
          rxBytesTotal := l.network.rxBytesTotal + m.rxBytes
          txBytesTotal := l.network.txBytesTotal + m.txBytes
          rxKbps := Arithmetic.add l.network.rxKbps (kbps m.rxBytesPerSecond)
          txKbps := Arithmetic.add l.network.txKbps (kbps m.txBytesPerSecond) }
      interfaces := l.interfaces ++ [m]
      next := l.next.assign r.name { identity := r.identity, rx := m.rxBytes, tx := m.txBytes }
      valid := l.valid && (m.rxBytesPerSecond.isSome && m.txBytesPerSecond.isSome) }

def network (g : Generation) (c : MetricsCollector D) :
    Outcome (NetworkMetrics D × List (InterfaceMetrics D)) × Table Bytes NetSample :=
  match g.source.proc (lit "net/dev") with
  | .error e => ({ value := (default, []), error := g.source.message e }, [])
  | .ok text =>
    let l :=
      (Istream.lines text).foldl (networkLine g c)
        { network := { (default : NetworkMetrics D) with timestamp := g.timestamp }, interfaces := [] }
    let state :=
      if l.valid then lit "ok"
      else if c.networkPrevious.isEmpty then lit "warming_up"
      else lit "partial"
    ({ value := (l.network, l.interfaces), state }, l.next)

/-! ## Disks -/

structure DiskRow where
  major : Nat
  minor : Nat
  name : Bytes
  fields : List UInt64

namespace DiskRow

/-- Partitions and stacked devices stay separate. -/
def key (r : DiskRow) : Bytes :=
  intToString r.major ++ ch ':' :: (intToString r.minor ++ ch ':' :: r.name)

def counters (r : DiskRow) : DiskCounters :=
  let field := fun i => r.fields.getD i 0
  { sectorsRead := field 2
    sectorsWritten := field 6
    reads := field 0
    writes := field 4
    busy := field 9 }

end DiskRow

inductive DiskLine where
  | skipped
  | malformed
  | row (r : DiskRow)

def diskLine (line : Bytes) : DiskLine :=
  let front := do
    let (major, line) ← Istream.unsigned (2 ^ 32) line
    let (minor, line) ← Istream.unsigned (2 ^ 32) line
    let (name, line) ← Istream.word line
    some (major, minor, name, line)
  match front with
  | none => .skipped
  | some (major, minor, name, line) =>
    match Istream.unsigneds (2 ^ 64) 11 line with
    | none => .malformed
    | some fields => .row { major, minor, name, fields := fields.map UInt64.ofNat }

def diskMetrics (c : MetricsCollector D) (r : DiskRow) : DiskIoMetrics D :=
  let old := c.disksPrevious.get r.key
  let rate := fun (counter : DiskCounters → UInt64) =>
    old.bind fun old => counterRate (D := D) (counter r.counters) (counter old) c.seconds
  let bytes := fun (sectors : D) => Arithmetic.mul sectors (Arithmetic.ofInt 512)
  { device := r.name
    readBytesPerSecond := (rate DiskCounters.sectorsRead).map bytes
    writeBytesPerSecond := (rate DiskCounters.sectorsWritten).map bytes
    iops :=
      (rate DiskCounters.reads).bind fun reads =>
        (rate DiskCounters.writes).map fun writes => Arithmetic.add reads writes
    busyPercent :=
      (rate DiskCounters.busy).map fun busy =>
        Arithmetic.min (Arithmetic.ofInt 100) (Arithmetic.div busy (Arithmetic.ofInt 10)) }

/-- What the loop over the disks changes. -/
structure DiskLoop (D : Type) where
  disks : List (DiskIoMetrics D)
  next : Table Bytes DiskCounters := []
  malformed : Bool := false

def diskStep (c : MetricsCollector D) (l : DiskLoop D) (line : Bytes) : DiskLoop D :=
  match diskLine line with
  | .skipped => l
  | .malformed => { l with malformed := true }
  | .row r =>
    { l with disks := l.disks ++ [c.diskMetrics r], next := l.next.assign r.key r.counters }

def disk (g : Generation) (c : MetricsCollector D) :
    Outcome (List (DiskIoMetrics D)) × Table Bytes DiskCounters :=
  match g.source.proc (lit "diskstats") with
  | .error e => ({ value := [], error := g.source.message e }, [])
  | .ok text =>
    let l := (Istream.lines text).foldl c.diskStep { disks := [] }
    let state :=
      if c.disksPrevious.isEmpty && !l.next.isEmpty then lit "warming_up"
      else if l.malformed then lit "partial"
      else lit "ok"
    ({ value := l.disks, state }, l.next)

/-! ## File system, load and pressure -/

def filesystem (g : Generation) : Outcome (DiskMetrics D) :=
  match g.source.filesystem with
  | .error e => { value := default, error := g.source.message e }
  | .ok st =>
    let totalBytes := st.blocks * st.frsize
    let usedBytes := (if st.blocks ≥ st.bfree then st.blocks - st.bfree else 0) * st.frsize
    { value :=
        { timestamp := g.timestamp
          totalBytes
          availableBytes := st.bavail * st.frsize
          usedBytes
          usedPercent := if totalBytes ≠ 0 then percent usedBytes totalBytes else zero } }

/-- Load: a number that cannot be read may still be stored, and the time is. -/
def load (g : Generation) : Outcome (LoadavgMetrics D) :=
  match g.source.proc (lit "loadavg") with
  | .error e => { value := default, error := g.source.message e }
  | .ok text =>
    let (load1m, input) := Istream.real (Arithmetic.fromStream (D := D)) (some text)
    let (load5m, input) := Istream.real (Arithmetic.fromStream (D := D)) input
    let (load15m, input) := Istream.real (Arithmetic.fromStream (D := D)) input
    { value :=
        { timestamp := g.timestamp
          load1m := load1m.getD zero
          load5m := load5m.getD zero
          load15m := load15m.getD zero }
      error := if input.isSome then none else some (lit "malformed loadavg") }

def textOr (f : FileResult) : Bytes :=
  match f with
  | .ok text => text
  | .error _ => []

def resources : List Bytes := [lit "cpu", lit "memory", lit "io"]

def pressure (g : Generation) : Outcome (List (PressureMetrics D)) :=
  let metrics : List (PressureMetrics D) :=
    resources.map fun r => parsePressure r (textOr (g.source.proc (lit "pressure/" ++ r)))
  let available := metrics.countP fun p => p.someAvg10.isSome
  { value := metrics
    state :=
      if available < 3 then if available ≠ 0 then lit "partial" else lit "unavailable"
      else lit "ok" }

/-! ## Control group -/

/-- cpu.max: whether the quota is unlimited, and the quota in cores. Only the value of the
period is looked at, not the state of the stream. -/
def cpuMax (text : Bytes) : Option (Bool × Option D) :=
  (Istream.word text).bind fun (quota, rest) =>
    let period := Istream.unsignedStored (2 ^ 64) rest
    if period = 0 then none
    else
      some (quota = lit "max",
        (scalar (.ok quota)).map fun q =>
          Arithmetic.div (Double.ofUInt64 q) (Double.ofUInt64 (UInt64.ofNat period)))

/-- A counter of cpu.stat against the one before it. -/
def cgroupRate (c : MetricsCollector D) (current previous : Option UInt64) : Option D :=
  current.bind fun current => previous.bind fun previous => counterRate current previous c.seconds

/-- `cg_identity_`, `cg_usage_` and `cg_throttled_`. -/
structure CgroupBaseline where
  identity : Bytes
  usage : Option UInt64
  throttled : Option UInt64

def cgroup (g : Generation) (c : MetricsCollector D) : Outcome (CgroupMetrics D) × CgroupBaseline :=
  let identity := g.source.cgroupIdentity
  let c :=
    if identity = [] ∨ identity ≠ c.cgIdentity then { c with cgUsage := none, cgThrottled := none }
    else c
  let m : CgroupMetrics D :=
    { (default : CgroupMetrics D) with path := c.config.cgroupPath, state := lit "unavailable" }
  if identity = [] then
    ({ value := m, state := lit "unavailable" }, { identity, usage := none, throttled := none })
  else
    let read := fun name => g.source.cgroup (lit name)
    let memoryMax := read "memory.max"
    let stat := (read "cpu.stat").toOption.map keyValues
    let value := fun key => stat.bind fun values => values.get (lit key)
    let quota : Option (Bool × Option D) := (read "cpu.max").toOption.bind cpuMax
    let usage := value "usage_usec"
    let throttled := value "throttled_usec"
    let memoryCurrent := scalar (read "memory.current")
    let state :=
      if memoryCurrent.isSome && stat.isSome then lit "ok"
      else if memoryCurrent.isSome || stat.isSome then lit "partial"
      else lit "unavailable"
    let m :=
      { m with
        memoryCurrent
        memoryMax := scalar memoryMax
        memoryUnlimited := memoryMax.toOption.any fun text => trim text = lit "max"
        oomKill :=
          (read "memory.events").toOption.bind fun text => (keyValues text).get (lit "oom_kill")
        cpuUnlimited := (quota.map Prod.fst).getD false
        cpuQuotaCores := quota.bind Prod.snd
        cpuPercent :=
          (c.cgroupRate usage c.cgUsage).map fun rate =>
            Arithmetic.div rate (Arithmetic.ofInt 10000)
        throttledMsPerSecond :=
          (c.cgroupRate throttled c.cgThrottled).map fun rate =>
            Arithmetic.div rate (Arithmetic.ofInt 1000)
        nrThrottled := value "nr_throttled"
        pressure :=
          resources.map fun r => parsePressure r (textOr (g.source.cgroup (r ++ lit ".pressure")))
        state }
    ({ value := m, state }, { identity, usage, throttled })

/-! ## Collect -/

/-- The status that the lambda `collect` leaves: an exception makes the section unavailable. -/
def status {α : Type} (g : Generation) (name : Bytes) (o : Outcome α) : SampleStatus :=
  match o.error with
  | none => { name, state := o.state, error := [], durationUs := g.durationUs name }
  | some error => { name, state := lit "unavailable", error, durationUs := g.durationUs name }

/-- `std::chrono::duration<double>(now - previous).count()`, of nanoseconds. -/
def elapsed (now previous : TimePoint) : D :=
  Arithmetic.div (Double.ofInt64 (Int64.ofInt (now.val - previous.val)))
    (Arithmetic.ofInt 1000000000)

/-- The collector with the time base of a generation. -/
def timed (c : MetricsCollector D) (g : Generation) : MetricsCollector D :=
  { c with seconds := (c.previousTime.map fun previous => elapsed g.now previous).getD zero }

def collect (c : MetricsCollector D) (g : Generation) : SystemSnapshot D × MetricsCollector D :=
  let c := c.timed g
  let (cpu, cpuPrevious) := c.cpu g
  let memory := memory g
  let (processes, processesPrevious) := c.processes g memory.value.totalBytes
  let (network, networkPrevious) := c.network g
  let (disk, disksPrevious) := c.disk g
  let filesystem := filesystem g
  let load := load g
  let pressure := pressure g
  let cgroup := if c.config.cgroupPath ≠ [] then some (c.cgroup g) else none
  let statuses :=
    [status g (lit "cpu") cpu, status g (lit "memory") memory, status g (lit "processes") processes,
      status g (lit "network") network, status g (lit "disk_io") disk,
      status g (lit "filesystem") filesystem, status g (lit "load") load,
      status g (lit "psi") pressure]
  ({ timestamp := g.timestamp
     cpu := cpu.value.1
     memory := memory.value
     disk := filesystem.value
     network := network.value.1
     loadavg := load.value
     process := processes.value.process
     telemetry :=
      { (default : TelemetryInfo D) with
        collectionStartedAt := g.timestamp
        intervalMs := c.config.pollInterval
        bootId := c.bootId
        hostname := c.hostname
        cpuIds := cpu.value.2
        processDenied := processes.value.denied
        processVanished := processes.value.vanished
        processMalformed := processes.value.malformed
        processesTruncated := processes.value.truncated
        interfaces := network.value.2
        disks := disk.value
        pressure := pressure.value
        cgroup := (cgroup.map fun o => o.1.value).getD default
        collectors := statuses ++ (cgroup.map fun o => status g (lit "cgroup") o.1).toList
        collectionFinishedAt := g.finishedAt
        collectionUs := g.collectionUs } },
    { c with
      cpuPrevious
      processesPrevious
      networkPrevious
      disksPrevious
      cgUsage := (cgroup.map fun o => o.2.usage).getD c.cgUsage
      cgThrottled := (cgroup.map fun o => o.2.throttled).getD c.cgThrottled
      cgIdentity := (cgroup.map fun o => o.2.identity).getD c.cgIdentity
      previousTime := some g.now })

end MetricsCollector
end WebHtop.Server.Collectors
