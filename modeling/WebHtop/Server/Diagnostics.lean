import WebHtop.Lib.Istream
import WebHtop.Server.Http.Route
import WebHtop.Server.Ledger
import WebHtop.Server.State.SharedState

/-!
# The diagnostics of the reactor

`Reactor::Diagnostics`, as the JSON document of `/diagnostics` and as the text of `/exporter`. What
the system says of the process is an input, like the reading of the clock. Both reports carry the
members of the reactor, which are 64 bits wide in the source.
-/

namespace WebHtop.Server

open WebHtop.Lib WebHtop.Lib.Decimal WebHtop.Common WebHtop.Common.JSONValue
open WebHtop.Server.Collectors WebHtop.Server.Http

variable {D : Type}

/-- An address that `inet_pton` takes: the constructor has listened on it. -/
abbrev BindAddress := { address : Bytes // address.all isPlain = true ∧ address.length ≤ 45 }

theorem BindAddress.wellFormed (bindAddress : BindAddress) : Utf8.WellFormed bindAddress.val := by
  refine Json.wellFormed_of_ascii (List.all_eq_true.mpr fun c hc => decide_eq_true ?_)
  exact (isPlain_iff.mp (List.all_eq_true.mp bindAddress.property.1 c hc)).2.1

/-- The times and the peak of getrusage. -/
structure Rusage where
  utimeSec : Nat
  utimeUsec : Nat
  stimeSec : Nat
  stimeUsec : Nat
  maxrss : Nat

/-- What Diagnostics reads outside the reactor. `rusage` is `none` where getrusage fails,
`descriptors` where `/proc/self/fd` cannot be enumerated to its end. -/
structure Readings where
  now : TimePoint
  rusage : Option Rusage
  descriptors : Option Nat
  lockFree : Bool

/-- `duration_cast<milliseconds>(now - before).count()`. -/
def milliseconds (now before : TimePoint) : Int64 := Int64.ofInt ((now.val - before.val).tdiv 1000000)

/-- `age`: −1 before the first generation. -/
def snapshotAge (now : TimePoint) (latest : Option (PublishedSnapshot D)) : Int64 :=
  match latest with
  | some latest => milliseconds now latest.publishedAt
  | none => -1

def rusageMembers (rusage : Option Rusage) : List (Bytes × JSONValue D) :=
  match rusage with
  | some usage =>
    let cpuUs := UInt64.ofNat (usage.utimeSec + usage.stimeSec) * 1000000 +
      UInt64.ofNat (usage.utimeUsec + usage.stimeUsec)
    [(lit "process_cpu_us", .uint64 cpuUs),
      (lit "rss_peak_bytes", .uint64 (UInt64.ofNat usage.maxrss * 1024))]
  | none => []

/-- The enumeration itself owns one descriptor. -/
def descriptorMembers (descriptors : Option Nat) : List (Bytes × JSONValue D) :=
  match descriptors with
  | some (count + 1) => [(lit "open_fds", .uint64 (UInt64.ofNat count))]
  | some 0 => []
  | none => []

def reactorMembers (config : ReactorConfig) (bindAddress : BindAddress) (started : TimePoint)
    (r : Reactor) (latest : Option (PublishedSnapshot D)) (readings : Readings) :
    List (Bytes × JSONValue D) := [
  (lit "active_sessions", .uint64 (UInt64.ofNat r.sessions.length)),
  (lit "accepted_total", .uint64 (UInt64.ofNat r.accepted)),
  (lit "rejected_total", .uint64 (UInt64.ofNat r.rejected)),
  (lit "dropped_snapshots_total", .uint64 (UInt64.ofNat r.dropped)),
  (lit "timeouts_total", .uint64 (UInt64.ofNat r.timeouts)),
  (lit "bytes_sent_total", .uint64 (UInt64.ofNat r.bytesSent)),
  (lit "queued_bytes", .uint64 (UInt64.ofNat r.queuedBytes)),
  (lit "queue_budget_bytes", .uint64 (UInt64.ofNat kQueueBudget)),
  (lit "snapshot_age_ms", .int64 (snapshotAge readings.now latest)),
  (lit "snapshot_store_lock_free", .bool readings.lockFree),
  (lit "max_clients", .uint64 (UInt64.ofNat config.maxClients)),
  (lit "bind", .string bindAddress.val),
  (lit "uptime_ms", .int64 (milliseconds readings.now started)),
  (lit "encode_us", .uint64 ((latest.map PublishedSnapshot.encodeUs).getD 0))]

def diagnosticsTree (config : ReactorConfig) (bindAddress : BindAddress) (started : TimePoint)
    (r : Reactor) (latest : Option (PublishedSnapshot D)) (readings : Readings) : JSONValue D :=
  .object (rusageMembers readings.rusage ++ descriptorMembers readings.descriptors ++
    reactorMembers config bindAddress started r latest readings)

/-- Reactor::Diagnostics as JSON. -/
def diagnostics [Double D] (config : ReactorConfig) (bindAddress : BindAddress) (started : TimePoint)
    (r : Reactor) (latest : Option (PublishedSnapshot D)) (readings : Readings) : Option Bytes :=
  (diagnosticsTree config bindAddress started r latest readings).toString

/-- A sample of the exporter with the line of its type. -/
structure Metric where
  name : Bytes
  kind : Bytes
  value : Int

def Metric.lines (m : Metric) : List Bytes :=
  [lit "# TYPE " ++ m.name ++ lit " " ++ m.kind, m.name ++ lit " " ++ intToString m.value]

def exporterMetrics (r : Reactor) (latest : Option (PublishedSnapshot D)) (now : TimePoint) :
    List Metric := [
  ⟨lit "web_htop_sessions", lit "gauge", (UInt64.ofNat r.sessions.length).toNat⟩,
  ⟨lit "web_htop_queued_bytes", lit "gauge", (UInt64.ofNat r.queuedBytes).toNat⟩,
  ⟨lit "web_htop_snapshots_dropped_total", lit "counter", (UInt64.ofNat r.dropped).toNat⟩,
  ⟨lit "web_htop_connections_rejected_total", lit "counter", (UInt64.ofNat r.rejected).toNat⟩,
  ⟨lit "web_htop_bytes_sent_total", lit "counter", (UInt64.ofNat r.bytesSent).toNat⟩,
  ⟨lit "web_htop_snapshot_age_ms", lit "gauge", (snapshotAge now latest).toInt⟩]

/-- Reactor::Diagnostics as the text of the exporter. -/
def exporter (r : Reactor) (latest : Option (PublishedSnapshot D)) (now : TimePoint) : Bytes :=
  ((exporterMetrics r latest now).flatMap Metric.lines).flatMap fun line => line ++ lit "\n"

/-! ## The size of the document -/

theorem rusageMembers_cases (rusage : Option Rusage) : rusageMembers (D := D) rusage = [] ∨
    ∃ a b, rusageMembers (D := D) rusage =
      [(lit "process_cpu_us", .uint64 a), (lit "rss_peak_bytes", .uint64 b)] := by
  cases rusage with
  | none => exact .inl rfl
  | some usage => exact .inr ⟨_, _, rfl⟩

theorem descriptorMembers_cases (descriptors : Option Nat) :
    descriptorMembers (D := D) descriptors = [] ∨
      ∃ c, descriptorMembers (D := D) descriptors = [(lit "open_fds", .uint64 c)] := by
  match descriptors with
  | none => exact .inl rfl
  | some 0 => exact .inl rfl
  | some (count + 1) => exact .inr ⟨_, rfl⟩

section

variable [Double D] (config : ReactorConfig) (bindAddress : BindAddress) (started : TimePoint)
  (r : Reactor) (latest : Option (PublishedSnapshot D)) (readings : Readings)

/-- The document holds no double, and it is small. -/
theorem diagnosticsTree_written : ∃ width nodes,
    Written (diagnosticsTree config bindAddress started r latest readings)
      [.string bindAddress.val] width nodes 2 ∧ width ≤ 750 ∧ nodes ≤ 20 := by
  have hbind := literalWidth_plain bindAddress.property.1
  have hlength := bindAddress.property.2
  have hbool : boolWidth readings.lockFree ≤ 5 := by
    unfold boolWidth
    split <;> decide
  have hu := intWidth_uint64_le
  have hi := intWidth_int64_le
  have hreactor : ∃ width, WrittenMembers
      (reactorMembers config bindAddress started r latest readings)
      [lit "active_sessions", lit "accepted_total", lit "rejected_total",
        lit "dropped_snapshots_total", lit "timeouts_total", lit "bytes_sent_total",
        lit "queued_bytes", lit "queue_budget_bytes", lit "snapshot_age_ms",
        lit "snapshot_store_lock_free", lit "max_clients", lit "bind", lit "uptime_ms",
        lit "encode_us"] [.string bindAddress.val] width 14 1 ∧ width ≤ 300 := by
    refine ⟨_, .cons (.uint64 _) (.cons (.uint64 _) (.cons (.uint64 _) (.cons (.uint64 _)
      (.cons (.uint64 _) (.cons (.uint64 _) (.cons (.uint64 _) (.cons (.uint64 _)
      (.cons (.int64 _) (.cons (.bool _) (.cons (.uint64 _) (.cons (.string _)
      (.cons (.int64 _) (.cons (.uint64 _) .nil))))))))))))), ?_⟩
    have h1 := hu (UInt64.ofNat r.sessions.length)
    have h2 := hu (UInt64.ofNat r.accepted)
    have h3 := hu (UInt64.ofNat r.rejected)
    have h4 := hu (UInt64.ofNat r.dropped)
    have h5 := hu (UInt64.ofNat r.timeouts)
    have h6 := hu (UInt64.ofNat r.bytesSent)
    have h7 := hu (UInt64.ofNat r.queuedBytes)
    have h8 := hu (UInt64.ofNat kQueueBudget)
    have h9 := hi (snapshotAge readings.now latest)
    have h10 := hu (UInt64.ofNat config.maxClients)
    have h11 := hi (milliseconds readings.now started)
    have h12 := hu ((latest.map PublishedSnapshot.encodeUs).getD 0)
    omega
  obtain ⟨width, hmembers, hwidth⟩ := hreactor
  -- Four lists of names, by what the system has told.
  unfold diagnosticsTree
  rcases rusageMembers_cases (D := D) readings.rusage with hr | ⟨a, b, hr⟩ <;>
    rcases descriptorMembers_cases (D := D) readings.descriptors with hd | ⟨c, hd⟩ <;> rw [hr, hd]
  · exact ⟨_, _, .object 255 (by decide +kernel) hmembers, by omega, by omega⟩
  · have hc := hu c
    exact ⟨_, _, .object 267 (by decide +kernel) (.cons (.uint64 c) hmembers), by omega, by omega⟩
  · have ha := hu a
    have hb := hu b
    exact ⟨_, _, .object 291 (by decide +kernel) (.cons (.uint64 a) (.cons (.uint64 b) hmembers)),
      by omega, by omega⟩
  · have ha := hu a
    have hb := hu b
    have hc := hu c
    exact ⟨_, _, .object 303 (by decide +kernel) (.cons (.uint64 a) (.cons (.uint64 b)
      (.cons (.uint64 c) hmembers))), by omega, by omega⟩

/-! ## Reading the document -/

variable [LawfulDouble D]

theorem diagnostics_isSome :
    (diagnostics config bindAddress started r latest readings).isSome = true := by
  obtain ⟨width, nodes, hw, -⟩ :=
    diagnosticsTree_written config bindAddress started r latest readings
  have hclean := (hw.clean fun d => Finite d).mpr (List.forall_mem_singleton.mpr bindAddress.wellFormed)
  refine (serializeTo_isSome_iff _ (-1) 0).mpr ?_
  rw [repaired_clean _ hclean]
  exact hclean

variable {config bindAddress started r latest readings} {text : Bytes}

theorem length_diagnostics (h : diagnostics config bindAddress started r latest readings = some text) :
    text.length ≤ 750 := by
  obtain ⟨width, nodes, hw, hwidth, -⟩ :=
    diagnosticsTree_written config bindAddress started r latest readings
  rw [(toString_compact h).1, hw.width]
  exact hwidth

theorem parse_diagnostics [PlainNotation D]
    (h : diagnostics config bindAddress started r latest readings = some text) :
    ∃ real : D → JSONValue D, Readback real ∧
      parse text = some (back real (diagnosticsTree config bindAddress started r latest readings)) := by
  obtain ⟨real, hreal⟩ := exists_readback (D := D)
  obtain ⟨width, nodes, hw, -, hnodes⟩ :=
    diagnosticsTree_written config bindAddress started r latest readings
  have hparts : ∀ a ∈ [Part.string bindAddress.val], a.Clean (Plain (D := D)) :=
    List.forall_mem_singleton.mpr bindAddress.wellFormed
  have hlength := length_diagnostics h
  exact ⟨real, hreal, parse_written hreal (repaired_clean _ ((hw.clean Plain).mpr hparts)) hw hparts
    (by decide) (by omega) h (by omega)⟩

end

/-- A member of the reactor is found behind the members of the system. -/
theorem field_diagnostics {config : ReactorConfig} {bindAddress : BindAddress} {started : TimePoint}
    {r : Reactor} {latest : Option (PublishedSnapshot D)} {readings : Readings} (real : D → JSONValue D)
    {key : Bytes} {w : JSONValue D}
    (hfront : key ∉ [lit "process_cpu_us", lit "rss_peak_bytes", lit "open_fds"])
    (h : lookup (reactorMembers config bindAddress started r latest readings) key = some w) :
    (back real (diagnosticsTree config bindAddress started r latest readings)).field key =
      some (back real w) := by
  rw [field_back rfl, ← Option.map_some]
  refine congrArg (Option.map (back real)) ?_
  simp only [List.mem_cons, List.not_mem_nil, or_false, not_or] at hfront
  obtain ⟨hcpu, hrss, hfds⟩ := hfront
  have hne : ∀ {name : Bytes}, ¬ key = name → (name == key) = false := fun hk =>
    beq_eq_false_iff_ne.mpr fun he => hk he.symm
  show lookup _ key = some w
  rcases rusageMembers_cases (D := D) readings.rusage with hr | ⟨a, b, hr⟩ <;>
    rcases descriptorMembers_cases (D := D) readings.descriptors with hd | ⟨c, hd⟩ <;>
      rw [hr, hd, ← h] <;> simp [lookup, hne hcpu, hne hrss, hne hfds]

/-! ## Both reports -/

/-- The sample of that name in a text of the exporter: the text behind the name and a blank, in a line
that is no comment. -/
def sampleOf (text name : Bytes) : Option Bytes :=
  (((Istream.lines text).filter fun line => line.head? ≠ some (ch '#')).find? fun line =>
    (name ++ lit " ").isPrefixOf line).map fun line => line.drop (name.length + 1)

/-- The samples of the exporter with the members of the document that they repeat. -/
def exported : List (Bytes × Bytes) := [
  (lit "web_htop_sessions", lit "active_sessions"),
  (lit "web_htop_queued_bytes", lit "queued_bytes"),
  (lit "web_htop_snapshots_dropped_total", lit "dropped_snapshots_total"),
  (lit "web_htop_connections_rejected_total", lit "rejected_total"),
  (lit "web_htop_bytes_sent_total", lit "bytes_sent_total"),
  (lit "web_htop_snapshot_age_ms", lit "snapshot_age_ms")]

/-- The lines of a metric hold no line end. -/
theorem Metric.not_mem_lines {m : Metric} (hname : m.name.all isPlain = true)
    (hkind : m.kind.all isPlain = true) : ∀ line ∈ m.lines, (0x0A : UInt8) ∉ line := by
  have hplain : ∀ {b : Bytes}, b.all isPlain = true → (0x0A : UInt8) ∉ b := fun hb hmem =>
    absurd (List.all_eq_true.mp hb _ hmem) (by decide)
  have hnumber : (0x0A : UInt8) ∉ intToString m.value := fun hmem =>
    absurd (noControl_number (Integral.numberText_intToString m.value) _ hmem) (by decide)
  have hblank : (0x0A : UInt8) ∉ lit " " := by decide
  have htype : (0x0A : UInt8) ∉ lit "# TYPE " := by decide
  intro line hline
  rcases List.mem_pair.mp hline with rfl | rfl
  · simp [hplain hname, hplain hkind, hblank, htype]
  · simp [hplain hname, hblank, hnumber]

theorem lines_exporter (r : Reactor) (latest : Option (PublishedSnapshot D)) (now : TimePoint) :
    Istream.lines (exporter r latest now) = (exporterMetrics r latest now).flatMap Metric.lines := by
  have hplain : ∀ m ∈ exporterMetrics r latest now,
      m.name.all isPlain = true ∧ m.kind.all isPlain = true := by
    simp only [exporterMetrics, List.forall_mem_cons]
    exact ⟨by decide, by decide, by decide, by decide, by decide, by decide, List.forall_mem_nil _⟩
  refine Istream.lines_terminated fun line hline => ?_
  obtain ⟨m, hm, hline⟩ := List.mem_flatMap.mp hline
  exact Metric.not_mem_lines (hplain m hm).1 (hplain m hm).2 line hline

theorem length_lines (ms : List Metric) (h : ∀ m ∈ ms, m.name.length ≤ 40 ∧ m.kind.length ≤ 10 ∧
    intWidth m.value ≤ 20) :
    ((ms.flatMap Metric.lines).flatMap fun line => line ++ lit "\n").length ≤ 130 * ms.length := by
  induction ms with
  | nil => exact Nat.le_refl 0
  | cons m ms ih =>
      obtain ⟨⟨hname, hkind, hvalue⟩, hms⟩ := List.forall_mem_cons.mp h
      have hih := ih hms
      have hparts : (lit "# TYPE ").length = 7 ∧ (lit " ").length = 1 ∧ (lit "\n").length = 1 := by
        decide
      rw [intWidth] at hvalue
      rw [List.flatMap_cons, List.flatMap_append, List.length_append, List.length_cons]
      simp only [Metric.lines, List.flatMap_cons, List.flatMap_nil, List.append_nil,
        List.length_append, hparts]
      omega

/-- The text of the exporter is small. -/
theorem length_exporter (r : Reactor) (latest : Option (PublishedSnapshot D)) (now : TimePoint) :
    (exporter r latest now).length ≤ 780 := by
  refine length_lines (exporterMetrics r latest now) ?_
  simp only [exporterMetrics, List.forall_mem_cons]
  exact ⟨⟨by decide, by decide, intWidth_uint64_le _⟩, ⟨by decide, by decide, intWidth_uint64_le _⟩,
    ⟨by decide, by decide, intWidth_uint64_le _⟩, ⟨by decide, by decide, intWidth_uint64_le _⟩,
    ⟨by decide, by decide, intWidth_uint64_le _⟩, ⟨by decide, by decide, intWidth_int64_le _⟩,
    List.forall_mem_nil _⟩

/-- Both reports have the same numbers. -/
theorem sampleOf_exporter (config : ReactorConfig) (bindAddress : BindAddress) (started : TimePoint)
    (r : Reactor) (latest : Option (PublishedSnapshot D)) (readings : Readings) (real : D → JSONValue D) :
    ∀ e ∈ exported, ∃ n : Int,
      sampleOf (exporter r latest readings.now) e.1 = some (intToString n) ∧
      (back real (diagnosticsTree config bindAddress started r latest readings)).field e.2 =
        some (integer n) := by
  have hsample : ∀ m ∈ exporterMetrics r latest readings.now,
      sampleOf (exporter r latest readings.now) m.name = some (intToString m.value) := by
    simp only [sampleOf, lines_exporter, exporterMetrics, List.forall_mem_cons]
    exact ⟨rfl, rfl, rfl, rfl, rfl, rfl, List.forall_mem_nil _⟩
  simp only [exporterMetrics, List.forall_mem_cons] at hsample
  obtain ⟨hsessions, hqueued, hdropped, hrejected, hsent, hage, -⟩ := hsample
  have hfield : ∀ (key : Bytes) {w : JSONValue D},
      key ∉ [lit "process_cpu_us", lit "rss_peak_bytes", lit "open_fds"] →
      lookup (reactorMembers config bindAddress started r latest readings) key = some w →
      (back real (diagnosticsTree config bindAddress started r latest readings)).field key =
        some (back real w) := fun key _ hfront h => field_diagnostics real hfront h
  simp only [exported, List.forall_mem_cons]
  exact ⟨⟨_, hsessions, hfield (lit "active_sessions") (by decide) rfl⟩,
    ⟨_, hqueued, hfield (lit "queued_bytes") (by decide) rfl⟩,
    ⟨_, hdropped, hfield (lit "dropped_snapshots_total") (by decide) rfl⟩,
    ⟨_, hrejected, hfield (lit "rejected_total") (by decide) rfl⟩,
    ⟨_, hsent, hfield (lit "bytes_sent_total") (by decide) rfl⟩,
    ⟨_, hage, hfield (lit "snapshot_age_ms") (by decide) rfl⟩, List.forall_mem_nil _⟩

/-- The counters of the document, by what a run has done and what its sessions add up to. -/
def totals (journal : List Outcome) (r : Reactor) : List (Bytes × Nat) := [
  (lit "active_sessions", r.sessions.length),
  (lit "accepted_total", (opened journal).length),
  (lit "rejected_total", journal.countP Outcome.rejects),
  (lit "dropped_snapshots_total", (r.sessions ++ r.closed).total fun s => supersededOf s.log),
  (lit "timeouts_total", (timedOut journal).length),
  (lit "bytes_sent_total", (r.sessions ++ r.closed).total fun s => (sentOf s.log).length),
  (lit "queued_bytes", r.sessions.total fun s => s.output.bytes)]

/-- The members that are counters. -/
theorem uint_totals {journal : List Outcome} {r : Reactor} (h : Ledger journal r)
    (config : ReactorConfig) (bindAddress : BindAddress) (started : TimePoint)
    (latest : Option (PublishedSnapshot D)) (readings : Readings) (real : D → JSONValue D) :
    ∀ e ∈ totals journal r, Access.uint
      (back real (diagnosticsTree config bindAddress started r latest readings)) e.1 =
        some (UInt64.ofNat e.2) := by
  have hfield : ∀ (key : Bytes) {u : UInt64},
      key ∉ [lit "process_cpu_us", lit "rss_peak_bytes", lit "open_fds"] →
      lookup (reactorMembers config bindAddress started r latest readings) key = some (.uint64 u) →
      Access.uint (back real (diagnosticsTree config bindAddress started r latest readings)) key =
        some u := by
    intro key u hfront h
    rw [Access.uint, field_diagnostics real hfront h, back_uint64]
    rfl
  simp only [totals, List.forall_mem_cons]
  rw [← h.accepted, ← h.rejected, ← h.dropped, ← h.timeouts, ← h.bytesSent, ← h.queued]
  exact ⟨hfield (lit "active_sessions") (by decide) rfl, hfield (lit "accepted_total") (by decide) rfl,
    hfield (lit "rejected_total") (by decide) rfl,
    hfield (lit "dropped_snapshots_total") (by decide) rfl,
    hfield (lit "timeouts_total") (by decide) rfl, hfield (lit "bytes_sent_total") (by decide) rfl,
    hfield (lit "queued_bytes") (by decide) rfl, List.forall_mem_nil _⟩

namespace System

variable [Double D] [LawfulDouble D] [PlainNotation D] {config : ReactorConfig} {s : System}
  {httpListener streamListener signalFd notificationFd timer : Nat} {es : List Event}

/-- In every reachable state `/diagnostics` is a short document that the parser reads. Each of its
counters is what the run has done or what its sessions add up to, and `/exporter` has the same numbers. -/
theorem diagnostics_exact
    (hr : Run (Step config) (init httpListener streamListener signalFd notificationFd timer) es s)
    (bindAddress : BindAddress) (started : TimePoint) (latest : Option (PublishedSnapshot D))
    (readings : Readings) : ∃ (text : Bytes) (v : JSONValue D),
      diagnostics config bindAddress started s.reactor latest readings = some text ∧
      text.length ≤ 750 ∧ parse text = some v ∧
      (∀ e ∈ totals
          (journal config (init httpListener streamListener signalFd notificationFd timer) es) s.reactor,
        Access.uint v e.1 = some (UInt64.ofNat e.2)) ∧
      ∀ e ∈ exported, ∃ n : Int,
        sampleOf (exporter s.reactor latest readings.now) e.1 = some (intToString n) ∧
        v.field e.2 = some (integer n) := by
  obtain ⟨text, htext⟩ := Option.isSome_iff_exists.mp
    (diagnostics_isSome config bindAddress started s.reactor latest readings)
  obtain ⟨real, -, hparse⟩ := parse_diagnostics htext
  exact ⟨text, _, htext, length_diagnostics htext, hparse,
    uint_totals (ledger_run hr) config bindAddress started latest readings real,
    sampleOf_exporter config bindAddress started s.reactor latest readings real⟩

/-- An address of the default configuration. -/
def loopback : BindAddress := ⟨lit "127.0.0.1", by decide⟩

def quiet : Readings := { now := epoch, rusage := none, descriptors := some 9, lockFree := false }

theorem diagnostics_exact_superseded : ∃ (s : System) (text : Bytes) (v : JSONValue Integral),
    follow (step {}) (init 3 4 5 6 7) superseded = some s ∧
    diagnostics {} loopback ⟨0, by decide⟩ s.reactor (none : Option (PublishedSnapshot Integral))
      quiet = some text ∧
    parse text = some v ∧ Access.uint v (lit "accepted_total") = some 1 ∧
    Access.uint v (lit "rejected_total") = some 1 ∧
    Access.uint v (lit "dropped_snapshots_total") = some 1 ∧
    Access.uint v (lit "timeouts_total") = some 1 := by
  have hf : follow (step {}) (init 3 4 5 6 7) superseded =
      some ((follow (step {}) (init 3 4 5 6 7) superseded).getD (init 3 4 5 6 7)) := rfl
  have hj : journal {} (init 3 4 5 6 7) superseded = [.opened 16, .turnedAway, .expired 16] := by
    decide +kernel
  obtain ⟨text, v, htext, -, hparse, htotals, -⟩ := diagnostics_exact (D := Integral)
    (run_of_follow hf) loopback ⟨0, by decide⟩ none quiet
  rw [hj] at htotals
  simp only [totals, List.forall_mem_cons] at htotals
  obtain ⟨-, haccepted, hrejected, hdropped, htimeouts, -⟩ := htotals
  exact ⟨_, text, v, hf, htext, hparse, haccepted, hrejected, hdropped, htimeouts⟩

end System
end WebHtop.Server
