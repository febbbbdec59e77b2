import WebHtop.Client.Ui.Canvas
import WebHtop.Common.Models.Snapshot

/-!
# The screen

`Render` of client/ui/terminal_ui.cpp with all its pages. The type of a canvas has its size,
so every drawing keeps it; what a page draws where is computed from the snapshot alone.
-/

namespace WebHtop.Client.Ui

open WebHtop.Lib WebHtop.Common

structure ViewState (D : Type) where
  snapshot : Option (SystemSnapshot D)
  diagnostics : Option (JSONValue D)
  cpuHistory : List D
  memoryHistory : List D
  rxHistory : List D
  connection : Bytes
  filter : Bytes
  sort : Bytes := lit "cpu"
  ageSeconds : D
  diagnosticsAge : D
  bytesReceived : UInt64 := 0
  reconnects : UInt64 := 0
  sequenceGaps : UInt64 := 0
  page : UInt32 := 1
  scroll : UInt64 := 0
  paused : Bool := false
  editingFilter : Bool := false
  help : Bool := false
  recording : Bool := false

variable {D : Type} [Arithmetic D]

/-! ## Texts -/

/-- `std::to_string` of an unsigned integer. -/
def decimal (n : Nat) : Bytes := intToString n

/-- `std::left` and `std::setw`. -/
def padded (width : Nat) (s : Bytes) : Bytes := s ++ List.replicate (width - s.length) (ch ' ')

def fixed (n : D) (precision : Nat := 1) : Bytes := Arithmetic.fixed n precision

def number (n : Option D) : Bytes := n.elim (lit "n/a") fun n => fixed n

/-- The loop of Bytes over the units that are left. -/
def unitLoop (n : D) (unit : Bytes) : List Bytes → D × Bytes
  | [] => (n, unit)
  | next :: units =>
    if Arithmetic.le (real 1024) n then unitLoop (Arithmetic.div n (real 1024)) next units
    else (n, unit)

def bytes (n : D) : Bytes :=
  let (n, unit) := unitLoop n (lit "B") [lit "KiB", lit "MiB", lit "GiB", lit "TiB"]
  fixed n (if Double.lt n (real 10) then 2 else 1) ++ lit " " ++ unit

def bytesOf (n : UInt64) : Bytes := bytes (Double.ofUInt64 n : D)

def rate (n : Option D) : Bytes := n.elim (lit "n/a") fun n => bytes n ++ lit "/s"

def count (n : Option UInt64) : Bytes := n.elim (lit "n/a") fun n => decimal n.toNat

def statusColor (status : Bytes) : Color :=
  if status = lit "ok" then .green else if status = lit "unavailable" then .red else .amber

def sectionOk (v : ViewState D) (name : Bytes) : Bool :=
  v.snapshot.any fun s =>
    (s.telemetry.collectors.find? fun status => status.name = name).any fun status =>
      status.state = lit "ok"

/-- A field of the diagnostics, whatever its type. -/
def field (v : Option (JSONValue D)) (key : Bytes) : Bytes :=
  match v.bind fun v => v.field key with
  | none => lit "n/a"
  | some p =>
    match p.asUInt64, p.asInt64, p.asBool, p.asString with
    | some n, _, _, _ => decimal n.toNat
    | none, some n, _, _ => intToString n.toInt
    | none, none, some b, _ => if b then lit "true" else lit "false"
    | none, none, none, some s => s
    | none, none, none, none => lit "n/a"

/-! ## Tables -/

section

variable {w h : Nat}

/-- Draws the first items, each with its index, while the index is below `limit`. -/
def eachRow {α : Type} (c : Canvas w h) (limit : Int) (items : List α)
    (draw : Canvas w h → Int → α → Canvas w h) : Canvas w h :=
  (items.take limit.toNat).zipIdx.foldl (fun c (item, i) => draw c i item) c

/-- The order of the process table. -/
def processLess (sort : Bytes) (a b : ProcessInfo D) : Bool :=
  if sort = lit "cpu" ∧ Arithmetic.ne a.cpuPercent b.cpuPercent then
    Double.lt b.cpuPercent a.cpuPercent
  else if sort = lit "memory" ∧ a.memoryBytes ≠ b.memoryBytes then b.memoryBytes < a.memoryBytes
  else if sort = lit "threads" ∧ a.threadCount ≠ b.threadCount then b.threadCount < a.threadCount
  else a.pid.toInt < b.pid.toInt

/-- The processes that the filter leaves, in order. -/
def visible (v : ViewState D) (s : SystemSnapshot D) : List (ProcessInfo D) :=
  let processes := s.process.processes.filter fun p =>
    v.filter = [] ∨ v.filter <:+: sanitized p.name ∨ v.filter <:+: intToString p.pid.toInt
  processes.mergeSort fun a b => !processLess v.sort b a

def processText (p : ProcessInfo D) : Bytes :=
  padded 9 (intToString p.pid.toInt) ++
    padded 9 (if p.cpuValid then fixed p.cpuPercent else lit "n/a") ++
    padded 13 (bytesOf (D := D) p.memoryBytes) ++ padded 6 (decimal p.threadCount.toNat) ++
    p.state.toUInt8 :: (lit "   " ++ sanitized p.name)

def processes (c : Canvas w h) (v : ViewState D) (x y width height : Int) : Canvas w h :=
  let c := c.box x y width height
    (lit " PROCESS EXPLORER / sort=" ++ v.sort ++ lit " / one core=100% ")
  match v.snapshot with
  | none => c
  | some s =>
    let processes := visible v s
    let c := c.text (x + 2) (y + 1) (lit "PID      CPU%     RSS          THR   ST  NAME") .muted
      (width - 4)
    let offset := min v.scroll.toNat (processes.length - 1)
    let c := eachRow c (height - 4) (processes.drop offset) fun c i p =>
      c.text (x + 2) (y + 2 + i) (processText p)
        (if Arithmetic.le (real 100) p.cpuPercent then .amber else .normal) (width - 4)
    c.text (x + 2) (y + height - 2)
      (lit "visible " ++ decimal processes.length ++ lit " / sampled " ++
        decimal s.process.totalProcesses.toNat ++
        (if s.telemetry.processesTruncated then lit " / TOP-K TRUNCATED" else []) ++
        lit " / filter: " ++ v.filter) .muted (width - 4)

def pressureText (p : PressureMetrics D) : Bytes :=
  padded 14 p.resource ++ padded 13 (number p.someAvg10) ++ padded 13 (number p.someAvg60) ++
    padded 13 (number p.someAvg300) ++ number p.fullAvg10

def pressure (c : Canvas w h) (metrics : List (PressureMetrics D)) (x y width : Int) :
    Canvas w h :=
  let c := c.text x y (lit "RESOURCE      SOME 10s     SOME 60s     SOME 300s    FULL 10s") .muted
    width
  metrics.zipIdx.foldl
    (fun c (p, i) =>
      c.text x (y + (1 + i)) (pressureText p)
        (if Double.lt (real 10) (p.someAvg10.getD zero) then .amber else .normal) width) c

/-! ## Pages -/

def helpTexts : List Bytes :=
  [lit "1..6   switch workspace",
    lit "c / m / p / t   sort processes by CPU / RSS / PID / thread count",
    lit "/   edit process filter; Enter accepts, Esc cancels",
    lit "j / k   scroll process table; g returns to the first row",
    lit "Space   freeze the visible snapshot; acquisition and recording continue",
    lit "h   toggle help     q   quit",
    lit "CPU% uses one core = 100%. A multithreaded process can exceed 100%.",
    lit "n/a means there is no valid rate yet. Zero is a valid measurement.",
    lit "Disk rows are separate devices; stacked devices are not added together.",
    lit "PSI reports stalled task time, not CPU utilization.",
    lit "Recording: --record session.jsonl. Replay: --replay session.jsonl.",
    lit "Transport counters are fetched independently through /diagnostics."]

def compactView (c : Canvas w h) (v : ViewState D) (width height : Int) : Canvas w h :=
  let c := c.box 0 4 width (height - 7) (lit " COMPACT VIEW ")
  let c := c.text 2 6 (lit "Resize to at least 80 x 26 for the full workspace.") .amber (width - 4)
  match v.snapshot with
  | none => c
  | some s =>
    let c := c.text 2 8
      (lit "CPU " ++ fixed s.cpu.totalUsagePercent ++ lit "% / RAM " ++ fixed s.memory.usedPercent ++
        lit "%") .normal (width - 4)
    c.text 2 9 (lit "Processes " ++ decimal s.process.totalProcesses.toNat) .normal (width - 4)

def helpView (c : Canvas w h) (width height : Int) : Canvas w h :=
  let c := c.box 0 4 width (height - 7) (lit " WORKSPACE KEYS ")
  eachRow c (height - 10) helpTexts fun c i text =>
    c.text 3 (6 + i) text (if i < 6 then .white else .normal) (width - 6)

def connectionView (c : Canvas w h) (width height : Int) : Canvas w h :=
  let c := c.box 0 4 width (height - 7) (lit " CONNECTION ")
  c.text 3 7 (lit "No snapshot received. The UI remains responsive while reconnecting.") .amber
    (width - 6)

/-- `*std::max_element`, or 1. -/
def largest : List D → D
  | [] => real 1
  | n :: ns => ns.foldl (fun m n => if Double.lt m n then n else m) n

/-- Page 1. -/
def overview (c : Canvas w h) (v : ViewState D) (s : SystemSnapshot D) (width height : Int) :
    Canvas w h :=
  let t := s.telemetry
  let half := width / 2
  let c := c.box 0 4 half 9 (lit " CPU / 120 SAMPLES ")
  let c := c.text 2 5
    ((if sectionOk v (lit "cpu") then fixed s.cpu.totalUsagePercent ++ lit "%" else lit "n/a") ++
      lit "   " ++ decimal s.cpu.coreCount.toNat ++ lit " cores   load " ++ fixed s.loadavg.load1m)
    .white (half - 4)
  let c := c.trend 2 7 (half - 4) 4 v.cpuHistory .cyan
  let c := c.box half 4 (width - half) 9 (lit " MEMORY / WORKING SET ")
  let c := c.text (half + 2) 5
    (if sectionOk v (lit "memory") then
      bytesOf (D := D) s.memory.usedBytes ++ lit " / " ++ bytesOf (D := D) s.memory.totalBytes
    else lit "unavailable") .white (width - half - 4)
  let c := c.trend (half + 2) 7 (width - half - 4) 4 v.memoryHistory .green
  let c := c.box 0 13 half 6 (lit " COLLECTION PIPELINE ")
  let c := c.text 2 14
    (lit "generation " ++ decimal t.sequence.toNat ++ lit "  collect " ++
      fixed (Arithmetic.div (Double.ofUInt64 t.collectionUs) (real 1000) : D) ++ lit " ms")
    .normal (half - 4)
  let c := c.text 2 15
    (lit "skipped ticks " ++ decimal t.skippedTicks.toNat ++ lit "  denied PIDs " ++
      decimal t.processDenied.toNat) .muted (half - 4)
  let c := c.text 2 16 (lit "scope: procfs-view / disk capacity via statvfs") .muted (half - 4)
  let c := c.box half 13 (width - half) 6 (lit " NETWORK / AGGREGATE (NON-LOOPBACK DEFAULT) ")
  let c := c.text (half + 2) 14
    (if sectionOk v (lit "network") then
      lit "RX " ++ bytes (Arithmetic.mul s.network.rxKbps (real 1024)) ++ lit "/s   TX " ++
        bytes (Arithmetic.mul s.network.txKbps (real 1024)) ++ lit "/s"
    else lit "rates warming up / partial: inspect I/O workspace") .normal (width - half - 4)
  let c := c.trend (half + 2) 15 (width - half - 4) 2 v.rxHistory .cyan
    (Arithmetic.max (largest v.rxHistory) (real 1))
  processes c v 0 19 width (height - 22)

def interfaceText (n : InterfaceMetrics D) : Bytes :=
  padded 19 n.name ++ padded 18 (rate n.rxBytesPerSecond) ++ padded 18 (rate n.txBytesPerSecond) ++
    padded 17 (decimal n.rxErrors.toNat ++ lit " / " ++ decimal n.rxDropped.toNat) ++
    decimal n.txErrors.toNat ++ lit " / " ++ decimal n.txDropped.toNat

def diskText (d : DiskIoMetrics D) : Bytes :=
  padded 19 d.device ++ padded 18 (rate d.readBytesPerSecond) ++
    padded 18 (rate d.writeBytesPerSecond) ++ padded 11 (number d.iops) ++ number d.busyPercent

/-- Page 3. -/
def ioView (c : Canvas w h) (v : ViewState D) (t : TelemetryInfo D) (width height : Int) :
    Canvas w h :=
  let nh := min 10 (toInt t.interfaces.length + 4)
  let c := c.box 0 4 width nh (lit " NETWORK INTERFACES / BYTES PER SECOND ")
  let c := c.text 2 5
    (lit "INTERFACE          RX RATE           TX RATE           RX ERR / DROP    TX ERR / DROP")
    .muted (width - 4)
  let c := eachRow c (nh - 3) t.interfaces fun c i n =>
    c.text 2 (6 + i) (interfaceText n) .normal (width - 4)
  let c := c.box 0 (4 + nh) width (height - 7 - nh)
    (lit " BLOCK DEVICES / NO AGGREGATION ACROSS STACKED DEVICES ")
  let c := c.text 2 (5 + nh)
    (lit "DEVICE             READ              WRITE             IOPS       BUSY%") .muted (width - 4)
  eachRow c (height - 11 - nh) (t.disks.drop v.scroll.toNat) fun c i d =>
    c.text 2 (6 + nh + i) (diskText d) .normal (width - 4)

/-- Page 4. -/
def pressureView (c : Canvas w h) (t : TelemetryInfo D) (width height : Int) : Canvas w h :=
  let c := c.box 0 4 width 8 (lit " PRESSURE STALL INFORMATION / PROCFS VIEW / PERCENT ")
  let c := pressure c t.pressure 2 5 (width - 4)
  let c := c.text 2 10 (lit "some = at least one task stalled; full = all non-idle tasks stalled")
    .muted (width - 4)
  let c := c.box 0 12 width (height - 15) (lit " CGROUP V2 / EXPLICIT SCOPE ")
  let g := t.cgroup
  let c := c.text 2 13
    (lit "path: " ++ if g.path = [] then lit "disabled (server --cgroup PATH)" else g.path) .white
    (width - 4)
  let c := c.text 2 14
    (lit "state: " ++ g.state ++ lit "   CPU " ++ number g.cpuPercent ++ lit "%   quota " ++
      (if g.cpuUnlimited then lit "unlimited" else number g.cpuQuotaCores) ++ lit " cores")
    .normal (width - 4)
  let c := c.text 2 15
    (lit "memory " ++ (g.memoryCurrent.elim (lit "n/a") (bytesOf (D := D))) ++ lit " / " ++
      (if g.memoryUnlimited then lit "unlimited"
      else g.memoryMax.elim (lit "n/a") (bytesOf (D := D))) ++
      lit "   OOM kills " ++ count g.oomKill) .normal (width - 4)
  let c := c.text 2 16
    (lit "throttled periods " ++ count g.nrThrottled ++ lit "   throttled ms/s " ++
      number g.throttledMsPerSecond) .amber (width - 4)
  pressure c g.pressure 2 18 (width - 4)

/-- The loop over the CPUs from the `k`-th one that is shown. -/
def cpuLoop (t : TelemetryInfo D) (first : UInt64) (columns : Nat) (height : Int) :
    Nat → List D → Canvas w h → Canvas w h
  | _, [], c => c
  | k, usage :: rest, c =>
    let row := toInt (k / columns)
    if 7 + row * 3 ≥ height - 5 then c
    else
      let x := 2 + toInt (k % columns) * 19
      let y := 7 + row * 3
      let i := first.toNat + k
      let id := t.cpuIds.getD i (UInt32.ofNat i)
      let color : Color :=
        if Arithmetic.le (real 90) usage then .red
        else if Arithmetic.le (real 65) usage then .amber
        else .cyan
      let c := c.text x y (lit "CPU " ++ decimal id.toNat ++ lit "  " ++ fixed usage ++ lit "%")
        color 17
      cpuLoop t first columns height (k + 1) rest (c.bar x (y + 1) 16 usage color)

/-- Page 6. -/
def cpuView (c : Canvas w h) (v : ViewState D) (s : SystemSnapshot D) (width height : Int) :
    Canvas w h :=
  let c := c.box 0 4 width (height - 7) (lit " CPU MATRIX / LINUX CPU IDS ")
  let c := c.text 2 5
    (lit "Load 1m/5m/15m: " ++ fixed s.loadavg.load1m ++ lit " / " ++ fixed s.loadavg.load5m ++
      lit " / " ++ fixed s.loadavg.load15m) .white (width - 4)
  let columns := max 1 ((width - 4).tdiv 19)
  let first := v.scroll * UInt64.ofNat columns.toNat
  let c := cpuLoop s.telemetry first columns.toNat height 0
    (s.cpu.perCoreUsagePercent.drop first.toNat) c
  c.text 2 (height - 5) (lit "j/k scroll rows | topology changes restart affected baselines") .muted
    (width - 4)

/-- The loop over the collectors. -/
def healthLoop (left height : Int) : Int → List SampleStatus → Canvas w h → Canvas w h
  | _, [], c => c
  | row, status :: rest, c =>
    let c := c.text 2 row status.name .white (left - 4)
    let c := c.text 18 row status.state (statusColor status.state) (left - 20)
    let c := c.text 2 (row + 1) (decimal status.durationUs.toNat ++ lit " us " ++ status.error)
      .muted (left - 4)
    if row + 2 ≥ height - 5 then c else healthLoop left height (row + 2) rest c

def transportStats (v : ViewState D) (t : TelemetryInfo D) : List (Bytes × Bytes) :=
  let probe := fun key => field v.diagnostics (lit key)
  [(lit "Received", bytesOf (D := D) v.bytesReceived),
    (lit "Reconnects", decimal v.reconnects.toNat),
    (lit "Sequence gaps", decimal v.sequenceGaps.toNat),
    (lit "Active sessions", probe "active_sessions"),
    (lit "Queued bytes", probe "queued_bytes"),
    (lit "Queue budget", probe "queue_budget_bytes"),
    (lit "Superseded frames", probe "dropped_snapshots_total"),
    (lit "Timeouts", probe "timeouts_total"),
    (lit "Rejected clients", probe "rejected_total"),
    (lit "Encode us", probe "encode_us"),
    (lit "Store lock-free", probe "snapshot_store_lock_free"),
    (lit "Probe age",
      if Double.lt v.diagnosticsAge zero then lit "n/a" else fixed v.diagnosticsAge ++ lit " s"),
    (lit "Instance", t.instanceId)]

/-- The other pages. -/
def transportView (c : Canvas w h) (v : ViewState D) (t : TelemetryInfo D) (width height : Int) :
    Canvas w h :=
  let left := width / 2
  let c := c.box 0 4 left (height - 7) (lit " COLLECTOR HEALTH / CURRENT GENERATION ")
  let c := healthLoop left height 6 t.collectors c
  let c := c.box left 4 (width - left) (height - 7) (lit " TRANSPORT / BOUNDED DELIVERY ")
  eachRow c (height - 10) (transportStats v t) fun c i stat =>
    let c := c.text (left + 2) (6 + i) stat.1 .muted 21
    c.text (left + 24) (6 + i) stat.2 .normal (width - left - 26)

/-! ## Render -/

def stale (v : ViewState D) : Bool :=
  Double.lt
    (v.snapshot.elim (real 3) fun s =>
      Arithmetic.div (Arithmetic.mul (real 3) (Double.ofUInt64 s.telemetry.intervalMs)) (real 1000))
    v.ageSeconds

def health (v : ViewState D) : Bytes :=
  if v.paused then lit "FROZEN VIEW"
  else if v.snapshot.isNone then lit "WAITING"
  else if stale v then lit "STALE"
  else if (lit "replay").isPrefixOf v.connection then lit "REPLAY"
  else lit "LIVE"

def page (c : Canvas w h) (v : ViewState D) (width height : Int) : Canvas w h :=
  if width < 80 ∨ height < 26 then compactView c v width height
  else if v.help then helpView c width height
  else
    match v.snapshot with
    | none => connectionView c width height
    | some s =>
      if v.page = 1 then overview c v s width height
      else if v.page = 2 then processes c v 0 4 width (height - 7)
      else if v.page = 3 then ioView c v s.telemetry width height
      else if v.page = 4 then pressureView c s.telemetry width height
      else if v.page = 6 then cpuView c v s width height
      else transportView c v s.telemetry width height

/-- What Render draws. -/
def draw (v : ViewState D) (w h : Nat) : Canvas w h :=
  let width : Int := w
  let height : Int := h
  let c := Canvas.blank w h
  let c := c.text 2 0 (lit "WEB_HTOP / SYSTEM TELEMETRY") .white
  let c := c.text (max 32 (width - 30)) 0 (health v)
    (if v.paused || stale v then .amber else .green)
  let c := c.text 2 1 (lit "1 Overview   2 Processes   3 I/O   4 Pressure   5 Transport   6 CPU")
    .cyan (width - 4)
  let c := c.text 2 2
    (lit "[" ++ decimal v.page.toNat ++ lit "] " ++ v.connection ++ lit "  | age " ++
      (if Double.lt v.ageSeconds zero then lit "n/a" else fixed v.ageSeconds ++ lit "s") ++
      lit "  | " ++
      v.snapshot.elim (lit "waiting for first snapshot") fun s => s.telemetry.hostname)
    .muted (width - 4)
  let c := page c v width height
  let c := c.text 2 (height - 2)
    (if v.editingFilter then lit "FILTER > " ++ v.filter
    else lit "c/m/p/t sort   / filter   j/k scroll   Space freeze   h help   q quit")
    (if v.editingFilter then .amber else .muted) (width - 4)
  let generation := v.snapshot.elim (lit "n/a") fun s => decimal s.telemetry.sequence.toNat
  let interval := v.snapshot.elim (lit "n/a") fun s => decimal s.telemetry.intervalMs.toNat
  c.text 2 (height - 1)
    ((if v.recording then lit "REC  " else []) ++ lit "generation " ++ generation ++
      lit " | interval " ++ interval ++ lit " ms | scope: procfs-view") .muted (width - 4)

end

/-- The width and the height of the canvas. -/
def columns (width : Int32) : Nat := (clampInt width.toInt 1 240).toNat

def rows (height : Int32) : Nat := (clampInt height.toInt 1 100).toNat

def render (v : ViewState D) (width height : Int32) (ansi : Bool) : Bytes :=
  (draw v (columns width) (rows height)).string ansi

/-! ## What reaches the terminal -/

/-- Printable ASCII, a box-drawing character of the renderer, or a block. -/
def Shown (c : Char) : Prop :=
  (' ' ≤ c ∧ c ≤ '~') ∨ c ∈ boxDrawing ∨ ('▁' ≤ c ∧ c ≤ '█')

theorem shown_char (g : Glyph) : Shown (Glyph.char g) := by
  have hval : (Glyph.char g).val = g.val := rfl
  have hle : ∀ a b : Char, a ≤ b ↔ a.val.toNat ≤ b.val.toNat := fun _ _ => UInt32.le_iff_toNat_le
  rcases g.property with ⟨hlow, hhigh⟩ | hbox | ⟨hlow, hhigh⟩
  · left
    rw [hle, hle, hval]
    exact ⟨hlow, hhigh⟩
  · right
    left
    obtain ⟨c, hc, heq⟩ := List.mem_map.mp hbox
    rwa [Char.ext (heq.trans hval.symm)] at hc
  · right
    right
    rw [hle, hle, hval]
    exact ⟨hlow, hhigh⟩

/-- Whatever is shown: no cell outside the canvas is written, and without the escape sequences
of the renderer the output is a rectangle of harmless characters. -/
theorem render_harmless (v : ViewState D) (width height : Int32) (ansi : Bool) :
    let canvas := draw v (columns width) (rows height)
    (∀ i ∈ canvas.written, i < canvas.cells.length) ∧
      canvas.cells.length = columns width * rows height ∧
        ∃ lines : List (List Char), (lines.length : Int) = clampInt height.toInt 1 100 ∧
          (∀ line ∈ lines, (line.length : Int) = clampInt width.toInt 1 240 ∧
            ∀ c ∈ line, Shown c) ∧
          strip 0 (render v width height ansi) =
            (newline ansi).intercalate (lines.map Utf8.encodeAll) := by
  have hwidth := clampInt_bounds width.toInt (show (1 : Int) ≤ 240 by decide)
  have hheight := clampInt_bounds height.toInt (show (1 : Int) ≤ 100 by decide)
  have hcolumns : (columns width : Int) = clampInt width.toInt 1 240 :=
    Int.toNat_of_nonneg (by omega)
  have hrows : (rows height : Int) = clampInt height.toInt 1 100 :=
    Int.toNat_of_nonneg (by omega)
  rw [← hcolumns, ← hrows]
  refine ⟨Canvas.inside _, Canvas.size _, (draw v (columns width) (rows height)).lines, ?_, ?_, ?_⟩
  · rw [Canvas.lines, List.length_map, List.length_range]
  · intro line hline
    obtain ⟨y, hy, rfl⟩ := List.mem_map.mp hline
    refine ⟨?_, fun c hc => ?_⟩
    · rw [chars, List.length_map, Canvas.length_row _ (List.mem_range.mp hy)]
    · obtain ⟨cell, -, rfl⟩ := List.mem_map.mp hc
      exact shown_char cell.glyph
  · obtain ⟨h, hh⟩ : ∃ h, rows height = h + 1 := ⟨rows height - 1, by omega⟩
    unfold render
    rw [hh]
    exact Canvas.strip_string _ ansi

end WebHtop.Client.Ui
