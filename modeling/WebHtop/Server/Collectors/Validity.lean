import WebHtop.Server.Collectors.ByteAccounting

/-!
# Unavailable sections

A section that throws is reported unavailable, and what it has written stays in the snapshot.
Five of the six sections check before they write. Load stores its time, and the numbers it
reads, before it finds out that the text is malformed.
-/

namespace WebHtop.Server.Collectors

open WebHtop.Lib WebHtop.Common

variable {D : Type} [Arithmetic D]

/-- The state that a collector reports. -/
def collectorState (s : SystemSnapshot D) (name : Bytes) : Option Bytes :=
  (s.telemetry.collectors.find? fun status => status.name = name).map SampleStatus.state

/-- The section of an unavailable collector is the default-constructed one. -/
structure NothingLeft (s : SystemSnapshot D) : Prop where
  cpu : collectorState s (lit "cpu") = some (lit "unavailable") → s.cpu = default
  memory : collectorState s (lit "memory") = some (lit "unavailable") → s.memory = default
  process : collectorState s (lit "processes") = some (lit "unavailable") → s.process = default
  network : collectorState s (lit "network") = some (lit "unavailable") → s.network = default
  disk : collectorState s (lit "filesystem") = some (lit "unavailable") → s.disk = default
  loadavg : collectorState s (lit "load") = some (lit "unavailable") → s.loadavg = default

namespace MetricsCollector

/-- Only an exception makes the section unavailable, and it finds the section cleared. -/
def Clear {α : Type} (o : Outcome α) (cleared : Prop) : Prop :=
  o.state ≠ lit "unavailable" ∧ (o.error.isSome = true → cleared)

theorem ok_ne : lit "ok" ≠ lit "unavailable" := by decide

theorem clear_iff {α : Type} {g : Generation} {name : Bytes} {o : Outcome α} {cleared : Prop}
    (hstate : o.state ≠ lit "unavailable") :
    (some (status g name o).state = some (lit "unavailable") → cleared) ↔
      (o.error.isSome = true → cleared) := by
  unfold status
  cases o.error with
  | none => simp [hstate]
  | some e => simp

theorem cpu_clear (c : MetricsCollector D) (g : Generation) :
    Clear (c.cpu g).1 ((c.cpu g).1.value.1 = default) := by
  unfold cpu
  split
  · exact ⟨ok_ne, fun _ => rfl⟩
  · dsimp only
    split
    · exact ⟨ok_ne, fun _ => rfl⟩
    · refine ⟨?_, fun h => by cases h⟩
      dsimp only
      split_ifs <;> first | exact ok_ne | decide

theorem memory_clear (g : Generation) :
    Clear (memory (D := D) g) ((memory (D := D) g).value = default) := by
  unfold memory
  split
  · exact ⟨ok_ne, fun _ => rfl⟩
  · split
    · exact ⟨ok_ne, fun _ => rfl⟩
    · exact ⟨ok_ne, fun h => by cases h⟩

theorem processes_clear (g : Generation) (c : MetricsCollector D) (totalBytes : UInt64) :
    Clear (c.processes g totalBytes).1 ((c.processes g totalBytes).1.value.process = default) := by
  unfold processes
  split
  · exact ⟨ok_ne, fun _ => rfl⟩
  · refine ⟨?_, fun h => by cases h⟩
    dsimp only
    split_ifs <;> first | exact ok_ne | decide

theorem network_clear (g : Generation) (c : MetricsCollector D) :
    Clear (c.network g).1 ((c.network g).1.value.1 = default) := by
  unfold network
  split
  · exact ⟨ok_ne, fun _ => rfl⟩
  · refine ⟨?_, fun h => by cases h⟩
    dsimp only
    split_ifs <;> first | exact ok_ne | decide

theorem filesystem_clear (g : Generation) :
    Clear (filesystem (D := D) g) ((filesystem (D := D) g).value = default) := by
  unfold filesystem
  split
  · exact ⟨ok_ne, fun _ => rfl⟩
  · exact ⟨ok_ne, fun h => by cases h⟩

/-- What three extractions store in three zeroed variables, and whether they all succeed. -/
def loadNumbers (text : Bytes) : (D × D × D) × Bool :=
  let (load1m, input) := Istream.real (Arithmetic.fromStream (D := D)) (some text)
  let (load5m, input) := Istream.real (Arithmetic.fromStream (D := D)) input
  let (load15m, input) := Istream.real (Arithmetic.fromStream (D := D)) input
  ((load1m.getD zero, load5m.getD zero, load15m.getD zero), input.isSome)

/-- The text of loadavg is well formed, or the time is zero and so is each number that is reached in
the text. -/
def LoadIntact (D : Type) [Arithmetic D] (g : Generation) : Prop :=
  ∀ text, g.source.proc (lit "loadavg") = .ok text →
    (loadNumbers (D := D) text).2 = true ∨
      g.timestamp = 0 ∧ ∀ number ∈ Istream.numerals (Arithmetic.fromStream (D := D)) 3 (some text),
        (Arithmetic.fromStream (D := D) number).1 = zero

/-- The numbers that are not reached stay zero. -/
theorem loadNumbers_zero (text : Bytes) : (loadNumbers (D := D) text).1 = (zero, zero, zero) ↔
    ∀ number ∈ Istream.numerals (Arithmetic.fromStream (D := D)) 3 (some text),
      (Arithmetic.fromStream (D := D) number).1 = zero := by
  have hstored : ∀ stored : Option D, stored.getD zero = zero ↔ ∀ d, stored = some d → d = zero := by
    intro stored
    cases stored <;> simp
  rw [Istream.forall_numerals _ 2 _ (· = zero), Istream.forall_numerals _ 1 _ (· = zero),
    Istream.forall_numerals _ 0 _ (· = zero), ← hstored, ← hstored, ← hstored]
  simp [loadNumbers, Istream.numerals]

theorem load_eq {g : Generation} {text : Bytes} (h : g.source.proc (lit "loadavg") = .ok text) :
    load (D := D) g =
      { value :=
          { timestamp := g.timestamp
            load1m := (loadNumbers text).1.1
            load5m := (loadNumbers text).1.2.1
            load15m := (loadNumbers text).1.2.2 }
        error := if (loadNumbers (D := D) text).2 then none else some (lit "malformed loadavg") } := by
  rw [load, h]
  rfl

theorem load_state (g : Generation) : (load (D := D) g).state ≠ lit "unavailable" := by
  cases h : g.source.proc (lit "loadavg") with
  | error e =>
    rw [load, h]
    exact ok_ne
  | ok text =>
    rw [load_eq h]
    exact ok_ne

theorem load_clear_iff (g : Generation) :
    ((load (D := D) g).error.isSome = true → (load (D := D) g).value = default) ↔ LoadIntact D g := by
  unfold LoadIntact
  cases h : g.source.proc (lit "loadavg") with
  | error e =>
    rw [load, h]
    simp
  | ok text =>
    rw [load_eq h]
    simp only [Except.ok.injEq, forall_eq']
    cases (loadNumbers (D := D) text).2 with
    | true => simp
    | false =>
      have hdefault : (default : LoadavgMetrics D) = ⟨0, zero, zero, zero⟩ := rfl
      rw [hdefault, ← loadNumbers_zero]
      simp only [Bool.false_eq_true, ↓reduceIte, Option.isSome_some, forall_const,
        LoadavgMetrics.mk.injEq, Prod.ext_iff, false_or]

theorem status_name {α : Type} (g : Generation) (name : Bytes) (o : Outcome α) :
    (status g name o).name = name := by
  unfold status
  split <;> rfl

theorem find_status {α : Type} (g : Generation) (name : Bytes) (o : Outcome α) (rest : List SampleStatus) :
    (status g name o :: rest).find? (fun status => status.name = name) = some (status g name o) := by
  rw [List.find?_cons_of_pos]
  exact decide_eq_true (status_name g name o)

theorem find_status_ne {α : Type} (g : Generation) {name other : Bytes} (h : other ≠ name)
    (o : Outcome α) (rest : List SampleStatus) :
    (status g other o :: rest).find? (fun status => status.name = name) =
      rest.find? fun status => status.name = name := by
  rw [List.find?_cons_of_neg]
  rw [status_name]
  simpa using h

/-- The states that the six sections report. -/
structure States (s : SystemSnapshot D) (c : MetricsCollector D) (g : Generation) : Prop where
  cpu : collectorState s (lit "cpu") = some (status g (lit "cpu") (c.cpu g).1).state
  memory : collectorState s (lit "memory") =
    some (status g (lit "memory") (MetricsCollector.memory (D := D) g)).state
  processes : collectorState s (lit "processes") =
    some (status g (lit "processes")
      (c.processes g (MetricsCollector.memory (D := D) g).value.totalBytes).1).state
  network : collectorState s (lit "network") = some (status g (lit "network") (c.network g).1).state
  filesystem : collectorState s (lit "filesystem") =
    some (status g (lit "filesystem") (MetricsCollector.filesystem (D := D) g)).state
  load : collectorState s (lit "load") = some (status g (lit "load") (MetricsCollector.load (D := D) g)).state

theorem collect_states (c : MetricsCollector D) (g : Generation) :
    States (c.collect g).1 (c.timed g) g := by
  constructor
  all_goals
    unfold collectorState collect
    dsimp only
    simp only [List.cons_append]
    repeat rw [find_status_ne g (by decide)]
    rw [find_status]
    rfl

/-- An unavailable section is the default-constructed one, unless Load has stored something of
a malformed text. -/
theorem unavailable_default (c : MetricsCollector D) (g : Generation) :
    NothingLeft (c.collect g).1 ↔ LoadIntact D g := by
  rw [← load_clear_iff]
  constructor
  · intro h
    have hload := h.loadavg
    rw [(collect_states c g).load] at hload
    exact (clear_iff (load_state g)).mp hload
  · intro h
    have hs := collect_states c g
    have hcpu := cpu_clear (c.timed g) g
    have hmemory := memory_clear (D := D) g
    have hprocess := processes_clear g (c.timed g) (memory (D := D) g).value.totalBytes
    have hnetwork := network_clear g (c.timed g)
    have hdisk := filesystem_clear (D := D) g
    constructor
    · rw [hs.cpu]
      exact (clear_iff hcpu.1).mpr hcpu.2
    · rw [hs.memory]
      exact (clear_iff hmemory.1).mpr hmemory.2
    · rw [hs.processes]
      exact (clear_iff hprocess.1).mpr hprocess.2
    · rw [hs.network]
      exact (clear_iff hnetwork.1).mpr hnetwork.2
    · rw [hs.filesystem]
      exact (clear_iff hdisk.1).mpr hdisk.2
    · rw [hs.load]
      exact (clear_iff (load_state g)).mpr h

/-- The load file has one number instead of three. -/
def shortLoad : Generation :=
  { source :=
      { proc := fun path => if path = lit "loadavg" then .ok (lit "0.50") else .error 2
        sys := fun _ => .error 2
        cgroup := fun _ => .error 2
        pids := .error 13
        filesystem := .error 5
        cgroupIdentity := []
        message := fun _ => [] }
    now := epoch
    timestamp := 1700000000000 }

theorem unavailable_not_default : ¬ NothingLeft (fresh.collect shortLoad).1 := by
  intro h
  have hload := h.loadavg
  rw [(collect_states fresh shortLoad).load] at hload
  have htime : (shortLoad.timestamp : UInt64) = 0 :=
    congrArg LoadavgMetrics.timestamp (hload (by decide +kernel))
  exact absurd htime (by decide)

end MetricsCollector
end WebHtop.Server.Collectors
