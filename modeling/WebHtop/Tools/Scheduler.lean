import Mathlib.Data.UInt
import WebHtop.Tools.Runqlat

/-!
# The reader of the profiler

The loop of tools/scheduler/main.cpp beside the handlers. A handler increments its cells in the order
of its code, one after another, and the handlers of the other CPUs and the reader run in between; the
reader looks at one cell of one CPU at a time. What the memory was at a lookup is an observation: the
reader has the value of its cell only.
-/

namespace WebHtop.Tools

open WebHtop.Lib

/-! ## The increments of a handler -/

/-- An entry of one of the two arrays. -/
inductive Cell
  | counters (key cpu : Nat)
  | histogram (key cpu : Nat)
deriving DecidableEq

namespace Cell

def cpu : Cell → Nat
  | counters _ cpu => cpu
  | histogram _ cpu => cpu

def isCounter (key : Nat) : Cell → Bool
  | counters k _ => k == key
  | histogram _ _ => false

def isBucket : Cell → Bool
  | counters _ _ => false
  | histogram _ _ => true

end Cell

namespace Runqlat

def entryOf (histogram counters : PerCpuArray) : Cell → UInt64
  | .counters key cpu => counters cpu key
  | .histogram key cpu => histogram cpu key

def entry (s : Runqlat) (cell : Cell) : UInt64 := entryOf s.histogram s.counters cell

def enqueueWrites (cpu : Nat) (tid : UInt32) (update : Update) : List Cell :=
  if tid = 0 then [] else if update.refused then [.counters 2 cpu] else []

def switchInWrites (s : Runqlat) (cpu : Nat) (tid : UInt32) (now : UInt64) : List Cell :=
  if tid = 0 then []
  else
    match s.enqueued.get tid with
    | none => [.counters 1 cpu]
    | some start =>
      if now < start then [.counters 1 cpu]
      else [.histogram (bucketOf ((now - start) / 1000)) cpu, .counters 0 cpu]

/-- What the handler of an event increments, in its order. -/
def writes (s : Runqlat) : Event → List Cell
  | .wakeup cpu task _ update => enqueueWrites cpu task update
  | .newTask cpu task _ update => enqueueWrites cpu task update
  | .switch cpu preempt prev prevState enqueuedAt update next evicted now =>
    let s' := if preempt ∨ prevState = 0 then s.enqueue cpu prev enqueuedAt update else s
    (if preempt ∨ prevState = 0 then enqueueWrites cpu prev update else []) ++
      (s'.evict evicted).switchInWrites cpu next now
  | .exit _ => []
  | .evicted _ => []

/-- The increments of some events. -/
def trace : Runqlat → List Event → List Cell
  | _, [] => []
  | s, e :: events => s.writes e ++ trace (s.step e) events

end Runqlat

/-! ## The memory -/

/-- The events that have been handled, and how many increments of a CPU the memory shows. -/
structure Memory where
  events : List Event := []
  shown : Nat → Nat := fun _ => 0

namespace Memory

/-- All increments on a CPU. -/
def onCpu (m : Memory) (cpu : Nat) : List Cell :=
  (Runqlat.trace {} m.events).filter fun cell => cell.cpu = cpu

/-- Those that the memory shows. -/
def shownOn (m : Memory) (cpu : Nat) : List Cell := (m.onCpu cpu).take (m.shown cpu)

/-- How often a cell has been incremented. -/
def times (m : Memory) (cell : Cell) : Nat := (m.shownOn cell.cpu).count cell

/-- `values[cpu]` of a lookup. -/
def lookup (m : Memory) (cell : Cell) : UInt64 := UInt64.ofNat (m.times cell)

/-- No handler is between two increments. -/
def Settled (m : Memory) : Prop := ∀ cpu, (m.onCpu cpu).length ≤ m.shown cpu

/-- Nothing is ever taken back. -/
def Earlier (m m' : Memory) : Prop := m.events <+: m'.events ∧ ∀ cpu, m.shown cpu ≤ m'.shown cpu

end Memory

/-! ## The reader -/

/-- A column of a line: the entry of that key, of all CPUs. -/
abbrev Column := Nat → Cell

/-- The columns in the order of the line. -/
def columns : List Column :=
  [.counters 0, .counters 1, .counters 2] ++ (List.range 64).map Cell.histogram

/-- A column of the memory at one time. -/
def Memory.total (m : Memory) (cpus : Nat) (column : Column) : Nat :=
  ((List.range cpus).map fun cpu => m.times (column cpu)).sum

/-- The lookups of a line. -/
def cells (cpus : Nat) : List Cell := columns.flatMap fun column => (List.range cpus).map column

/-- A line of which some cells have been looked up. -/
structure Line where
  timestamp : Int64
  began : Memory
  taken : Table Cell Memory := []

namespace Line

/-- What the lookup of a cell has given. -/
def value (l : Line) (cell : Cell) : UInt64 := ((l.taken.get cell).map fun m => m.lookup cell).getD 0

/-- `ReadCounter`. -/
def total (l : Line) (cpus : Nat) (column : Column) : UInt64 :=
  Runqlat.sum64 ((List.range cpus).map fun cpu => l.value (column cpu))

def samples (l : Line) (cpus : Nat) : UInt64 := l.total cpus (.counters 0)

def unmatchedSwitches (l : Line) (cpus : Nat) : UInt64 := l.total cpus (.counters 1)

def updateFailures (l : Line) (cpus : Nat) : UInt64 := l.total cpus (.counters 2)

def log2UsBuckets (l : Line) (cpus : Nat) : List UInt64 :=
  (List.range 64).map fun bucket => l.total cpus (.histogram bucket)

end Line

/-- A line that has been written, with the memory at its last lookup. -/
structure Report where
  line : Line
  ended : Memory

structure Profiler where
  memory : Memory := {}
  reading : Option (Line × List Cell) := none
  reports : List Report := []
  /-- The line in which a lookup has failed, which has ended the program. -/
  broken : Option Line := none

/-- What happens next: a handler is called, an increment of a CPU shows, the reader begins a line or
looks at its next cell, or the lookup of that cell fails. -/
inductive Moment
  | handled (event : Event)
  | shows (cpu : Nat)
  | begins (timestamp : Int64)
  | looks
  | fails

namespace Profiler

/-- A line without a cell left is written. -/
def proceed (p : Profiler) (line : Line) : List Cell → Profiler
  | [] => { p with reading := none, reports := p.reports ++ [⟨line, p.memory⟩] }
  | cell :: rest => { p with reading := some (line, cell :: rest) }

def step (cpus : Nat) (p : Profiler) : Moment → Profiler
  | .handled event => { p with memory := { p.memory with events := p.memory.events ++ [event] } }
  | .shows cpu =>
    if p.memory.shown cpu < (p.memory.onCpu cpu).length then
      let shown c := if c = cpu then p.memory.shown c + 1 else p.memory.shown c
      { p with memory := { p.memory with shown } }
    else p
  | .begins timestamp =>
    if p.reading.isSome ∨ p.broken.isSome then p
    else p.proceed { timestamp, began := p.memory } (cells cpus)
  | .looks =>
    match p.reading with
    | some (line, cell :: rest) =>
      p.proceed { line with taken := line.taken ++ [(cell, p.memory)] } rest
    | some (_, []) => p
    | none => p
  | .fails =>
    match p.reading with
    | some (line, _) => { p with reading := none, broken := some line }
    | none => p

def run (cpus : Nat) (moments : List Moment) : Profiler := moments.foldl (step cpus) {}

end Profiler

/-! ## Counting increments -/

namespace Runqlat

theorem trace_append (s : Runqlat) (events more : List Event) :
    trace s (events ++ more) = trace s events ++ trace (events.foldl step s) more := by
  induction events generalizing s with
  | nil => rfl
  | cons e events ih =>
    rw [List.cons_append, trace, trace, ih, List.append_assoc]
    rfl

theorem trace_snoc (events : List Event) (event : Event) :
    trace {} (events ++ [event]) = trace {} events ++ (run events).writes event := by
  rw [trace_append]
  exact congrArg _ (List.append_nil _)

theorem entry_count (s : Runqlat) (cpu : Nat) {key : Nat} (hkey : key < 3) (cell : Cell) :
    (s.count cpu key).entry cell = s.entry cell + UInt64.ofNat ([Cell.counters key cpu].count cell) := by
  cases cell with
  | histogram k c => exact (UInt64.add_zero _).symm
  | counters k c =>
    refine (increment_get s.counters hkey cpu c k).trans ?_
    rw [List.count_singleton]
    by_cases h : c = cpu ∧ k = key
    · obtain ⟨rfl, rfl⟩ := h
      rw [if_pos ⟨rfl, rfl⟩, if_pos (beq_self_eq_true _)]
      rfl
    · rw [if_neg h, if_neg]
      · exact (UInt64.add_zero _).symm
      · rw [beq_iff_eq, Cell.counters.injEq]
        exact fun heq => h ⟨heq.2.symm, heq.1.symm⟩

theorem entry_enqueue (s : Runqlat) (cpu : Nat) (tid : UInt32) (now : UInt64) (update : Update)
    (cell : Cell) : (s.enqueue cpu tid now update).entry cell =
      s.entry cell + UInt64.ofNat ((enqueueWrites cpu tid update).count cell) := by
  have hnone : s.entry cell = s.entry cell + UInt64.ofNat (([] : List Cell).count cell) :=
    (UInt64.add_zero _).symm
  unfold enqueue enqueueWrites
  split
  · exact hnone
  · dsimp only
    split
    · exact entry_count (s.evict update.evicted) cpu (by decide) cell
    · exact hnone

theorem entry_bucket (s : Runqlat) (cpu : Nat) {b : Nat} (hb : b < 64) (cell : Cell) :
    ({ s with histogram := s.histogram.increment 64 cpu b } : Runqlat).entry cell =
      s.entry cell + UInt64.ofNat ([Cell.histogram b cpu].count cell) := by
  cases cell with
  | counters k c => exact (UInt64.add_zero _).symm
  | histogram k c =>
    refine (increment_get s.histogram hb cpu c k).trans ?_
    rw [List.count_singleton]
    by_cases h : c = cpu ∧ k = b
    · obtain ⟨rfl, rfl⟩ := h
      rw [if_pos ⟨rfl, rfl⟩, if_pos (beq_self_eq_true _)]
      rfl
    · rw [if_neg h, if_neg]
      · exact (UInt64.add_zero _).symm
      · rw [beq_iff_eq, Cell.histogram.injEq]
        exact fun heq => h ⟨heq.2.symm, heq.1.symm⟩

theorem entry_switchIn (s : Runqlat) (cpu : Nat) (tid : UInt32) (now : UInt64) (cell : Cell) :
    (s.switchIn cpu tid now).entry cell =
      s.entry cell + UInt64.ofNat ((s.switchInWrites cpu tid now).count cell) := by
  unfold switchIn switchInWrites
  split
  · exact (UInt64.add_zero _).symm
  cases hget : s.enqueued.get tid with
  | none => exact entry_count s cpu (show 1 < 3 by decide) cell
  | some start =>
    dsimp only
    split
    · exact entry_count s cpu (show 1 < 3 by decide) cell
    · have hbucket := entry_bucket s cpu (bucketOf_spec ((now - start) / 1000)).1 cell
      refine (entry_count { s with
        histogram := s.histogram.increment 64 cpu (bucketOf ((now - start) / 1000)) } cpu
        (show 0 < 3 by decide) cell).trans ?_
      rw [hbucket, UInt64.add_assoc, ← UInt64.ofNat_add, ← List.count_append]
      rfl

/-- A handler increments what `writes` says. -/
theorem entry_step (s : Runqlat) (event : Event) (cell : Cell) :
    (s.step event).entry cell = s.entry cell + UInt64.ofNat ((s.writes event).count cell) := by
  cases event with
  | wakeup cpu task now update => exact entry_enqueue s cpu task now update cell
  | newTask cpu task now update => exact entry_enqueue s cpu task now update cell
  | exit task => exact (UInt64.add_zero _).symm
  | evicted tids => exact (UInt64.add_zero _).symm
  | switch cpu preempt prev prevState enqueuedAt update next evicted now =>
    refine (entry_switchIn _ cpu next now cell).trans ?_
    rw [writes, List.count_append, UInt64.ofNat_add, ← UInt64.add_assoc]
    congr 1
    by_cases h : preempt ∨ prevState = 0
    · simp only [if_pos h]
      exact entry_enqueue s cpu prev enqueuedAt update cell
    · simp only [if_neg h]
      exact (UInt64.add_zero _).symm

theorem entry_run (events : List Event) (cell : Cell) :
    (run events).entry cell = UInt64.ofNat ((trace {} events).count cell) := by
  induction events using List.reverseRecOn with
  | nil => cases cell <;> rfl
  | append_singleton events event ih =>
    rw [trace_snoc, List.count_append, UInt64.ofNat_add, ← ih, ← entry_step, run, List.foldl_append]
    rfl

/-! ## Samples and buckets -/

/-- The increments of a CPU in their order: a sample goes to its bucket and is then counted. -/
inductive Paired (cpu : Nat) : List Cell → Prop
  | nil : Paired cpu []
  | other {l : List Cell} {key : Nat} (h : Paired cpu l) (hkey : key ≠ 0) :
      Paired cpu (l ++ [.counters key cpu])
  | sample {l : List Cell} {bucket : Nat} (h : Paired cpu l) (hbucket : bucket < 64) :
      Paired cpu (l ++ [.histogram bucket cpu, .counters 0 cpu])

theorem paired_enqueue {c : Nat} {l : List Cell} (h : Paired c l) (cpu : Nat) (tid : UInt32)
    (update : Update) :
    Paired c (l ++ (enqueueWrites cpu tid update).filter fun cell => cell.cpu = c) := by
  unfold enqueueWrites
  split
  · simpa using h
  split
  · by_cases hc : cpu = c
    · subst hc
      simpa [Cell.cpu] using h.other (show 2 ≠ 0 by decide)
    · simpa [Cell.cpu, hc] using h
  · simpa using h

theorem paired_switchIn {c : Nat} {l : List Cell} (h : Paired c l) (s : Runqlat) (cpu : Nat)
    (tid : UInt32) (now : UInt64) :
    Paired c (l ++ (s.switchInWrites cpu tid now).filter fun cell => cell.cpu = c) := by
  have hunmatched : Paired c (l ++ [Cell.counters 1 cpu].filter fun cell => cell.cpu = c) := by
    by_cases hc : cpu = c
    · subst hc
      simpa [Cell.cpu] using h.other Nat.one_ne_zero
    · simpa [Cell.cpu, hc] using h
  unfold switchInWrites
  split
  · simpa using h
  split
  · exact hunmatched
  split
  · exact hunmatched
  · by_cases hc : cpu = c
    · subst hc
      simpa [Cell.cpu] using h.sample (bucketOf_spec _).1
    · simpa [Cell.cpu, hc] using h

theorem paired_trace (events : List Event) (c : Nat) :
    Paired c ((trace {} events).filter fun cell => cell.cpu = c) := by
  induction events using List.reverseRecOn with
  | nil => exact .nil
  | append_singleton events event ih =>
    rw [trace_snoc, List.filter_append]
    cases event with
    | wakeup cpu task now update => exact paired_enqueue ih cpu task update
    | newTask cpu task now update => exact paired_enqueue ih cpu task update
    | exit task => simpa [writes] using ih
    | evicted tids => simpa [writes] using ih
    | switch cpu preempt prev prevState enqueuedAt update next evicted now =>
      rw [writes, List.filter_append, ← List.append_assoc]
      refine paired_switchIn ?_ _ cpu next now
      by_cases h : preempt ∨ prevState = 0
      · rw [if_pos h]
        exact paired_enqueue ih cpu prev update
      · rw [if_neg h]
        simpa using ih

/-- The increments of the buckets of a CPU. -/
def inBuckets (cpu : Nat) (l : List Cell) : Nat :=
  ((List.range 64).map fun bucket => l.count (.histogram bucket cpu)).sum

theorem inBuckets_counters (cpu : Nat) (l : List Cell) (key : Nat) :
    inBuckets cpu (l ++ [.counters key cpu]) = inBuckets cpu l := by
  simp [inBuckets, List.count_append]

theorem inBuckets_histogram (cpu : Nat) (l : List Cell) {bucket : Nat} (hbucket : bucket < 64) :
    inBuckets cpu (l ++ [.histogram bucket cpu]) = inBuckets cpu l + 1 := by
  have hone : (List.range 64).count bucket = 1 :=
    List.count_eq_one_of_mem List.nodup_range (List.mem_range.mpr hbucket)
  have hsingle (b : Nat) : [Cell.histogram bucket cpu].count (.histogram b cpu) =
      if bucket == b then 1 else 0 := by
    rw [List.count_singleton]
    simp
  simp only [inBuckets, List.count_append, List.sum_map_add, hsingle, sum_indicator, hone]

/-- Wherever the increments are cut, at most one sample is in its bucket and not counted. -/
theorem Paired.balanced {cpu : Nat} {l l' : List Cell} (h : Paired cpu l) (hl : l' <+: l) :
    l'.count (.counters 0 cpu) ≤ inBuckets cpu l' ∧
      inBuckets cpu l' ≤ l'.count (.counters 0 cpu) + 1 := by
  suffices hboth : (l'.count (.counters 0 cpu) ≤ inBuckets cpu l' ∧
      inBuckets cpu l' ≤ l'.count (.counters 0 cpu) + 1) ∧
      (l' = l → inBuckets cpu l' = l'.count (.counters 0 cpu)) from hboth.1
  induction h generalizing l' with
  | nil =>
    obtain rfl := List.prefix_nil.mp hl
    simp [inBuckets]
  | @other l key _ hkey ih =>
    rcases List.prefix_concat_iff.mp hl with rfl | hl
    · have hbalanced := (ih (List.prefix_refl l)).2 rfl
      have hcount : (l ++ [Cell.counters key cpu]).count (.counters 0 cpu) =
          l.count (.counters 0 cpu) := by
        rw [List.count_append, List.count_singleton, if_neg, Nat.add_zero]
        simpa using hkey
      rw [inBuckets_counters, hcount]
      exact ⟨⟨hbalanced.ge, by omega⟩, fun _ => hbalanced⟩
    · refine ⟨(ih hl).1, ?_⟩
      rintro rfl
      exact absurd hl.length_le (by simp)
  | @sample l bucket _ hbucket ih =>
    have hsplit : l ++ [.histogram bucket cpu, .counters 0 cpu] =
        (l ++ [.histogram bucket cpu]) ++ [.counters 0 cpu] := by simp
    have hbalanced := (ih (List.prefix_refl l)).2 rfl
    have hfilled := inBuckets_histogram cpu l hbucket
    have hnot : (l ++ [Cell.histogram bucket cpu]).count (.counters 0 cpu) =
        l.count (.counters 0 cpu) := by
      rw [List.count_append, List.count_singleton]
      rfl
    rw [hsplit] at hl ⊢
    rcases List.prefix_concat_iff.mp hl with rfl | hl
    · have hcount : (l ++ [Cell.histogram bucket cpu] ++ [Cell.counters 0 cpu]).count
          (.counters 0 cpu) = l.count (.counters 0 cpu) + 1 := by
        rw [List.count_append, hnot, List.count_singleton_self]
      rw [inBuckets_counters, hcount, hfilled]
      omega
    · refine ⟨?_, ?_⟩
      · rcases List.prefix_concat_iff.mp hl with rfl | hl
        · rw [hnot, hfilled]
          omega
        · exact (ih hl).1
      · rintro rfl
        exact absurd hl.length_le (by simp)

/-! ## Events and their increments -/

/-- An event counts in a column once at most. -/
theorem writes_once (s : Runqlat) (event : Event) {p : Cell → Bool}
    (hp : p = Cell.isBucket ∨ ∃ key, p = Cell.isCounter key) : (s.writes event).countP p ≤ 1 := by
  have henqueue (cpu : Nat) (tid : UInt32) (update : Update) :
      (enqueueWrites cpu tid update).countP p ≤ 1 ∧
        (p (.counters 2 cpu) = false → (enqueueWrites cpu tid update).countP p = 0) := by
    unfold enqueueWrites
    split
    · exact ⟨Nat.zero_le 1, fun _ => rfl⟩
    split
    · exact ⟨List.countP_le_length, fun h => by simp [h]⟩
    · exact ⟨Nat.zero_le 1, fun _ => rfl⟩
  have hswitch (s : Runqlat) (cpu : Nat) (tid : UInt32) (now : UInt64) :
      (s.switchInWrites cpu tid now).countP p ≤ 1 ∧
        (p (.counters 2 cpu) = true → (s.switchInWrites cpu tid now).countP p = 0) := by
    unfold switchInWrites
    split
    · exact ⟨Nat.zero_le 1, fun _ => rfl⟩
    split
    · refine ⟨List.countP_le_length, fun h => ?_⟩
      rcases hp with rfl | ⟨key, rfl⟩
      · cases h
      · obtain rfl := eq_of_beq h
        rfl
    split
    · refine ⟨List.countP_le_length, fun h => ?_⟩
      rcases hp with rfl | ⟨key, rfl⟩
      · cases h
      · obtain rfl := eq_of_beq h
        rfl
    · rcases hp with rfl | ⟨key, rfl⟩
      · exact ⟨Nat.le_refl 1, fun h => by cases h⟩
      · refine ⟨?_, fun h => ?_⟩
        · rw [List.countP_cons_of_neg (by simp [Cell.isCounter])]
          exact List.countP_le_length
        · obtain rfl := eq_of_beq h
          rfl
  cases event with
  | wakeup cpu task now update => exact (henqueue cpu task update).1
  | newTask cpu task now update => exact (henqueue cpu task update).1
  | exit task => exact Nat.zero_le 1
  | evicted tids => exact Nat.zero_le 1
  | switch cpu preempt prev prevState enqueuedAt update next evicted now =>
    rw [writes, List.countP_append]
    have hin := hswitch ((if preempt ∨ prevState = 0 then s.enqueue cpu prev enqueuedAt update
      else s).evict evicted) cpu next now
    have hout : (if preempt ∨ prevState = 0 then enqueueWrites cpu prev update else []).countP p ≤ 1 ∧
        (p (.counters 2 cpu) = false →
          (if preempt ∨ prevState = 0 then enqueueWrites cpu prev update else []).countP p = 0) := by
      split
      · exact henqueue cpu prev update
      · exact ⟨Nat.zero_le 1, fun _ => rfl⟩
    cases h : p (.counters 2 cpu) with
    | true =>
      rw [hin.2 h]
      exact hout.1
    | false =>
      rw [hout.2 h, Nat.zero_add]
      exact hin.1

/-- A switch-in is a sample or unmatched. -/
theorem writes_switched (s : Runqlat) (event : Event) :
    (s.writes event).countP (fun cell => cell.isCounter 0 || cell.isCounter 1) =
      if event.switchedOn.isSome then 1 else 0 := by
  have henqueue (cpu : Nat) (tid : UInt32) (update : Update) :
      (enqueueWrites cpu tid update).countP (fun cell => cell.isCounter 0 || cell.isCounter 1) = 0 := by
    unfold enqueueWrites
    split
    · rfl
    split <;> rfl
  cases event with
  | wakeup cpu task now update => exact henqueue cpu task update
  | newTask cpu task now update => exact henqueue cpu task update
  | exit task => rfl
  | evicted tids => rfl
  | switch cpu preempt prev prevState enqueuedAt update next evicted now =>
    have hout : (if preempt ∨ prevState = 0 then enqueueWrites cpu prev update else []).countP
        (fun cell => cell.isCounter 0 || cell.isCounter 1) = 0 := by
      split
      · exact henqueue cpu prev update
      · rfl
    rw [writes, List.countP_append, hout, Nat.zero_add]
    unfold switchInWrites
    by_cases hnext : next = 0
    · rw [if_pos hnext, Event.switchedOn, if_pos hnext]
      rfl
    · rw [if_neg hnext, Event.switchedOn, if_neg hnext]
      split
      · rfl
      split <;> rfl

theorem trace_switched (events : List Event) :
    (trace {} events).countP (fun cell => cell.isCounter 0 || cell.isCounter 1) =
      events.countP fun event => event.switchedOn.isSome := by
  induction events using List.reverseRecOn with
  | nil => rfl
  | append_singleton events event ih =>
    rw [trace_snoc, List.countP_append, List.countP_append, ih, writes_switched, List.countP_singleton]

theorem trace_once (events : List Event) {p : Cell → Bool}
    (hp : p = Cell.isBucket ∨ ∃ key, p = Cell.isCounter key) :
    (trace {} events).countP p ≤ events.length := by
  induction events using List.reverseRecOn with
  | nil => exact Nat.le_refl 0
  | append_singleton events event ih =>
    have honce := writes_once (run events) event hp
    rw [trace_snoc, List.countP_append, List.length_append, List.length_singleton]
    omega

end Runqlat

/-! ## Memories in their order -/

theorem sum_count_cons {α : Type} [DecidableEq α] (ks : List α) (x : α) (l : List α) :
    (ks.map (x :: l).count).sum = (ks.map l.count).sum + ks.count x := by
  induction ks with
  | nil => rfl
  | cons k ks ih =>
    have hcomm : (x == k) = (k == x) := BEq.comm
    rw [List.map_cons, List.map_cons, List.sum_cons, List.sum_cons, ih, List.count_cons, List.count_cons,
      hcomm]
    omega

/-- Elements of a kind, counted one by one. -/
theorem sum_count_le {α : Type} [DecidableEq α] {ks : List α} (hn : ks.Nodup) {p : α → Bool}
    (hp : ∀ k ∈ ks, p k = true) (l : List α) : (ks.map l.count).sum ≤ l.countP p := by
  induction l with
  | nil => simp
  | cons x l ih =>
    rw [sum_count_cons, List.countP_cons]
    by_cases hx : x ∈ ks
    · rw [if_pos (hp x hx), List.count_eq_one_of_mem hn hx]
      exact Nat.add_le_add_right ih 1
    · rw [List.count_eq_zero_of_not_mem hx]
      exact ih.trans (Nat.le_add_right _ _)

namespace Memory

theorem Earlier.refl (m : Memory) : Earlier m m := ⟨List.prefix_refl _, fun _ => Nat.le_refl _⟩

theorem Earlier.trans {m m' m'' : Memory} (h : Earlier m m') (h' : Earlier m' m'') : Earlier m m'' :=
  ⟨h.1.trans h'.1, fun cpu => (h.2 cpu).trans (h'.2 cpu)⟩

theorem onCpu_mono {m m' : Memory} (h : m.events <+: m'.events) (cpu : Nat) :
    m.onCpu cpu <+: m'.onCpu cpu := by
  obtain ⟨more, hmore⟩ := h
  rw [onCpu, onCpu, ← hmore, Runqlat.trace_append, List.filter_append]
  exact List.prefix_append _ _

theorem Earlier.shownOn {m m' : Memory} (h : Earlier m m') (cpu : Nat) :
    m.shownOn cpu <+: m'.shownOn cpu :=
  (List.take_prefix_take_left (h.2 cpu)).trans ((onCpu_mono h.1 cpu).take _)

theorem Earlier.times_le {m m' : Memory} (h : Earlier m m') (cell : Cell) :
    m.times cell ≤ m'.times cell := (h.shownOn cell.cpu).sublist.count_le cell

theorem Earlier.total_le {m m' : Memory} (h : Earlier m m') (cpus : Nat) (column : Column) :
    m.total cpus column ≤ m'.total cpus column :=
  List.sum_le_sum fun cpu _ => h.times_le (column cpu)

/-- Cells of one column together count events. -/
theorem sum_times_le (m : Memory) {ks : List Cell} (hn : ks.Nodup) {p : Cell → Bool}
    (hp : p = Cell.isBucket ∨ ∃ key, p = Cell.isCounter key) (hks : ∀ cell ∈ ks, p cell = true) :
    (ks.map m.times).sum ≤ m.events.length := by
  have hle : (ks.map m.times).sum ≤ (ks.map (Runqlat.trace {} m.events).count).sum := by
    apply List.sum_le_sum
    intro cell _
    exact ((List.take_sublist _ _).trans List.filter_sublist).count_le cell
  exact (hle.trans (sum_count_le hn hks _)).trans (Runqlat.trace_once _ hp)

/-- Samples wait for the end of their handlers only. -/
theorem balanced (m : Memory) (cpu : Nat) :
    m.times (.counters 0 cpu) ≤ ((List.range 64).map fun b => m.times (.histogram b cpu)).sum ∧
      ((List.range 64).map fun b => m.times (.histogram b cpu)).sum ≤ m.times (.counters 0 cpu) + 1 :=
  (Runqlat.paired_trace m.events cpu).balanced (List.take_prefix _ _)

end Memory

/-! ## The order of the lookups -/

/-- The memories of a line, up to a later one, in the order of the lookups. -/
def Line.InOrder (l : Line) (now : Memory) : Prop :=
  (l.began :: (l.taken.map Prod.snd ++ [now])).Pairwise Memory.Earlier

theorem Line.InOrder.later {l : Line} {now now' : Memory} (h : l.InOrder now)
    (hnow : Memory.Earlier now now') : l.InOrder now' := by
  obtain ⟨hbegan, hrest⟩ := List.pairwise_cons.mp h
  obtain ⟨htaken, -, hlast⟩ := List.pairwise_append.mp hrest
  refine List.pairwise_cons.mpr ⟨?_, List.pairwise_append.mpr ⟨htaken, List.pairwise_singleton _ _, ?_⟩⟩
  · intro m hm
    rcases List.mem_append.mp hm with hm | hm
    · exact hbegan m (List.mem_append_left _ hm)
    · obtain rfl := List.mem_singleton.mp hm
      exact (hbegan now (List.mem_append_right _ (List.mem_singleton_self now))).trans hnow
  · intro m hm m' hm'
    obtain rfl := List.mem_singleton.mp hm'
    exact (hlast m hm now (List.mem_singleton_self now)).trans hnow

theorem Line.InOrder.take {l : Line} {now : Memory} (h : l.InOrder now) (cell : Cell) :
    Line.InOrder { l with taken := l.taken ++ [(cell, now)] } now := by
  unfold Line.InOrder at h ⊢
  rw [List.map_append, List.map_singleton, ← List.cons_append, ← List.cons_append]
  rw [← List.cons_append] at h
  refine List.pairwise_append.mpr ⟨h, List.pairwise_singleton _ _, ?_⟩
  intro m hm m' hm'
  obtain rfl := List.mem_singleton.mp hm'
  rcases List.mem_append.mp hm with hm | hm
  · exact (List.pairwise_append.mp h).2.2 m hm _ (List.mem_singleton_self _)
  · obtain rfl := List.mem_singleton.mp hm
    exact .refl _

namespace Profiler

/-- The lines of a run, complete in the order of their cells, one behind the other. -/
structure Orderly (cpus : Nat) (p : Profiler) : Prop where
  reading : ∀ line rest, p.reading = some (line, rest) →
    line.InOrder p.memory ∧ line.taken.keys ++ rest = cells cpus ∧ rest ≠ [] ∧
      ∀ r ∈ p.reports, Memory.Earlier r.ended line.began
  broken : ∀ line, p.broken = some line →
    ∃ rest, line.taken.keys ++ rest = cells cpus ∧ rest ≠ []
  reports : ∀ r ∈ p.reports, r.line.InOrder r.ended ∧ r.line.taken.keys = cells cpus ∧
    Memory.Earlier r.ended p.memory
  succession : p.reports.Pairwise fun r r' => Memory.Earlier r.ended r'.line.began

theorem Orderly.remembers {cpus : Nat} {p : Profiler} (h : Orderly cpus p) {m : Memory}
    (hm : Memory.Earlier p.memory m) : Orderly cpus { p with memory := m } where
  reading line rest hreading :=
    have ⟨horder, hkeys, hrest, hreports⟩ := h.reading line rest hreading
    ⟨horder.later hm, hkeys, hrest, hreports⟩
  broken := h.broken
  reports r hr :=
    have ⟨horder, hkeys, hended⟩ := h.reports r hr
    ⟨horder, hkeys, hended.trans hm⟩
  succession := h.succession

theorem Orderly.proceed {cpus : Nat} {p : Profiler} (h : Orderly cpus p) {line : Line}
    {rest : List Cell} (horder : line.InOrder p.memory) (hkeys : line.taken.keys ++ rest = cells cpus)
    (hreports : ∀ r ∈ p.reports, Memory.Earlier r.ended line.began) :
    Orderly cpus (p.proceed line rest) := by
  cases rest with
  | cons cell rest =>
    refine ⟨?_, h.broken, h.reports, h.succession⟩
    intro line' rest' hreading
    obtain ⟨rfl, rfl⟩ := Prod.mk.inj (Option.some.inj hreading)
    exact ⟨horder, hkeys, List.cons_ne_nil _ _, hreports⟩
  | nil =>
    rw [List.append_nil] at hkeys
    refine ⟨fun _ _ hreading => (by cases hreading), h.broken, ?_, ?_⟩
    · intro r hr
      rcases List.mem_append.mp hr with hr | hr
      · exact h.reports r hr
      · obtain rfl := List.mem_singleton.mp hr
        exact ⟨horder, hkeys, .refl _⟩
    · refine List.pairwise_append.mpr ⟨h.succession, List.pairwise_singleton _ _, ?_⟩
      intro r hr r' hr'
      obtain rfl := List.mem_singleton.mp hr'
      exact hreports r hr

theorem Orderly.step {cpus : Nat} {p : Profiler} (h : Orderly cpus p) (moment : Moment) :
    Orderly cpus (p.step cpus moment) := by
  cases moment with
  | handled event => exact h.remembers ⟨List.prefix_append _ _, fun _ => Nat.le_refl _⟩
  | shows cpu =>
    rw [Profiler.step]
    split
    · refine h.remembers ⟨List.prefix_refl _, fun c => ?_⟩
      dsimp only
      split
      · exact Nat.le_succ _
      · exact Nat.le_refl _
    · exact h
  | begins timestamp =>
    rw [Profiler.step]
    split
    · exact h
    · refine h.proceed ?_ rfl fun r hr => (h.reports r hr).2.2
      simp [Line.InOrder, Memory.Earlier.refl]
  | looks =>
    rw [Profiler.step]
    split
    · rename_i line cell rest hreading
      obtain ⟨horder, hkeys, -, hreports⟩ := h.reading line (cell :: rest) hreading
      refine h.proceed (horder.take cell) ?_ hreports
      rw [← hkeys]
      simp [Table.keys]
    · exact h
    · exact h
  | fails =>
    rw [Profiler.step]
    split
    · rename_i line rest hreading
      obtain ⟨-, hkeys, hrest, -⟩ := h.reading line rest hreading
      refine ⟨fun _ _ hnone => (by cases hnone), fun line' hbroken => ?_, h.reports, h.succession⟩
      obtain rfl := Option.some.inj hbroken
      exact ⟨rest, hkeys, hrest⟩
    · exact h

theorem run_orderly (cpus : Nat) (moments : List Moment) : Orderly cpus (run cpus moments) := by
  have hstart : Orderly cpus {} :=
    ⟨fun _ _ h => (by cases h), fun _ h => (by cases h), List.forall_mem_nil _, List.Pairwise.nil⟩
  exact List.foldlRecOn moments (step cpus) hstart fun p h moment _ => h.step moment

end Profiler

/-! ## What a line says -/

theorem mem_cells {cpus cpu : Nat} {column : Column} (hcolumn : column ∈ columns) (hcpu : cpu < cpus) :
    column cpu ∈ cells cpus :=
  List.mem_flatMap.mpr ⟨column, hcolumn, List.mem_map.mpr ⟨cpu, List.mem_range.mpr hcpu, rfl⟩⟩

theorem mem_columns_counters {key : Nat} (hkey : key < 3) : Cell.counters key ∈ columns := by
  refine List.mem_append_left _ ?_
  match key with
  | 0 | 1 | 2 => simp

theorem mem_columns_histogram {bucket : Nat} (hbucket : bucket < 64) :
    Cell.histogram bucket ∈ columns :=
  List.mem_append_right _ (List.mem_map.mpr ⟨bucket, List.mem_range.mpr hbucket, rfl⟩)

theorem column_cpu {column : Column} (hcolumn : column ∈ columns) (cpu : Nat) :
    (column cpu).cpu = cpu := by
  rcases List.mem_append.mp hcolumn with h | h
  · simp only [List.mem_cons, List.not_mem_nil, or_false] at h
    rcases h with rfl | rfl | rfl <;> rfl
  · obtain ⟨bucket, -, rfl⟩ := List.mem_map.mp h
    rfl

/-- The memory at the lookup of a cell. -/
def Report.seen (r : Report) (cell : Cell) : Memory := (r.line.taken.get cell).getD r.ended

/-- A line whose lookups are complete and in their order. -/
structure Report.Whole (cpus : Nat) (r : Report) : Prop where
  inOrder : r.line.InOrder r.ended
  keys : r.line.taken.keys = cells cpus

namespace Report.Whole

variable {cpus : Nat} {r : Report}

theorem get {cell : Cell} (h : r.Whole cpus) (hcell : cell ∈ cells cpus) :
    r.line.taken.get cell = some (r.seen cell) := by
  cases hget : r.line.taken.get cell with
  | some m => rw [Report.seen, hget, Option.getD_some]
  | none =>
    rw [← h.keys] at hcell
    exact absurd hcell (Table.get_eq_none.mp hget)

theorem value {cell : Cell} (h : r.Whole cpus) (hcell : cell ∈ cells cpus) :
    r.line.value cell = (r.seen cell).lookup cell := by
  rw [Line.value, h.get hcell]
  rfl

theorem mem {cell : Cell} (h : r.Whole cpus) (hcell : cell ∈ cells cpus) :
    (cell, r.seen cell) ∈ r.line.taken := Table.mem_of_get (h.get hcell)

theorem between {cell : Cell} (h : r.Whole cpus) (hcell : cell ∈ cells cpus) :
    Memory.Earlier r.line.began (r.seen cell) ∧ Memory.Earlier (r.seen cell) r.ended := by
  have hmem : r.seen cell ∈ r.line.taken.map Prod.snd := List.mem_map.mpr ⟨_, h.mem hcell, rfl⟩
  obtain ⟨hbegan, hrest⟩ := List.pairwise_cons.mp h.inOrder
  exact ⟨hbegan _ (List.mem_append_left _ hmem),
    (List.pairwise_append.mp hrest).2.2 _ hmem _ (List.mem_singleton_self _)⟩

/-- The counters are looked up in front of the buckets. -/
theorem counters_first (h : r.Whole cpus) {key bucket cpu cpu' : Nat}
    (hkey : Cell.counters key cpu ∈ cells cpus) (hbucket : Cell.histogram bucket cpu' ∈ cells cpus) :
    Memory.Earlier (r.seen (.counters key cpu)) (r.seen (.histogram bucket cpu')) := by
  have hsplit := h.keys
  rw [cells, columns, List.flatMap_append] at hsplit
  obtain ⟨front, back, htaken, hfront, hback⟩ := List.map_eq_append_iff.mp hsplit
  have hk := h.mem hkey
  have hb := h.mem hbucket
  have horder := h.inOrder
  rw [Line.InOrder, htaken, List.map_append] at horder
  rw [htaken] at hk hb
  have hkfront : (Cell.counters key cpu, r.seen (.counters key cpu)) ∈ front := by
    refine (List.mem_append.mp hk).resolve_right fun hmem => ?_
    have := hback ▸ List.mem_map_of_mem hmem
    simp at this
  have hbback : (Cell.histogram bucket cpu', r.seen (.histogram bucket cpu')) ∈ back := by
    refine (List.mem_append.mp hb).resolve_left fun hmem => ?_
    have := hfront ▸ List.mem_map_of_mem hmem
    simp at this
  have hpair := (List.pairwise_append.mp (List.pairwise_cons.mp horder).2).1
  exact (List.pairwise_append.mp hpair).2.2 _ (List.mem_map_of_mem hkfront) _
    (List.mem_map_of_mem hbback)

theorem nodup_column {column : Column} (hcolumn : column ∈ columns) (cpus : Nat) :
    ((List.range cpus).map column).Nodup := by
  refine List.nodup_range.map ?_
  rcases List.mem_append.mp hcolumn with h | h
  · simp only [List.mem_cons, List.not_mem_nil, or_false] at h
    rcases h with rfl | rfl | rfl <;> exact fun _ _ => fun h => (Cell.counters.inj h).2
  · obtain ⟨bucket, -, rfl⟩ := List.mem_map.mp h
    exact fun _ _ => fun h => (Cell.histogram.inj h).2

/-- A column of the memory counts events. -/
theorem total_le_events (m : Memory) {column : Column} (hcolumn : column ∈ columns) (cpus : Nat) :
    m.total cpus column ≤ m.events.length := by
  have hmap : m.total cpus column = (((List.range cpus).map column).map m.times).sum := by
    rw [List.map_map]
    rfl
  rw [hmap]
  rcases List.mem_append.mp hcolumn with h | h
  · obtain ⟨key, rfl⟩ : ∃ key, column = Cell.counters key := by
      simp only [List.mem_cons, List.not_mem_nil, or_false] at h
      rcases h with rfl | rfl | rfl <;> exact ⟨_, rfl⟩
    refine m.sum_times_le (nodup_column hcolumn cpus) (.inr ⟨key, rfl⟩) ?_
    rintro cell hcell
    obtain ⟨cpu, -, rfl⟩ := List.mem_map.mp hcell
    exact beq_self_eq_true key
  · obtain ⟨bucket, -, rfl⟩ := List.mem_map.mp h
    refine m.sum_times_le (nodup_column hcolumn cpus) (.inl rfl) ?_
    rintro cell hcell
    obtain ⟨cpu, -, rfl⟩ := List.mem_map.mp hcell
    rfl

/-- The sum of a column is that of the counts at its lookups. -/
theorem total_eq (h : r.Whole cpus) (hfew : r.ended.events.length < 2 ^ 64) {column : Column}
    (hcolumn : column ∈ columns) : (r.line.total cpus column).toNat =
      ((List.range cpus).map fun cpu => (r.seen (column cpu)).times (column cpu)).sum := by
  have hle : ((List.range cpus).map fun cpu => (r.seen (column cpu)).times (column cpu)).sum ≤
      r.ended.total cpus column := by
    apply List.sum_le_sum
    intro cpu hcpu
    exact (h.between (mem_cells hcolumn (List.mem_range.mp hcpu))).2.times_le _
  have hevents := total_le_events r.ended hcolumn cpus
  have hvalues : (List.range cpus).map (fun cpu => r.line.value (column cpu)) =
      ((List.range cpus).map fun cpu => (r.seen (column cpu)).times (column cpu)).map
        UInt64.ofNat := by
    rw [List.map_map]
    exact List.map_congr_left fun cpu hcpu => h.value (mem_cells hcolumn (List.mem_range.mp hcpu))
  rw [Line.total, hvalues, Runqlat.sum64_ofNat]
  exact UInt64.toNat_ofNat_of_lt' (show _ < 2 ^ 64 by omega)

theorem within (h : r.Whole cpus) (hfew : r.ended.events.length < 2 ^ 64) {column : Column}
    (hcolumn : column ∈ columns) :
    r.line.began.total cpus column ≤ (r.line.total cpus column).toNat ∧
      (r.line.total cpus column).toNat ≤ r.ended.total cpus column := by
  rw [h.total_eq hfew hcolumn]
  constructor
  · apply List.sum_le_sum
    intro cpu hcpu
    exact (h.between (mem_cells hcolumn (List.mem_range.mp hcpu))).1.times_le _
  · apply List.sum_le_sum
    intro cpu hcpu
    exact (h.between (mem_cells hcolumn (List.mem_range.mp hcpu))).2.times_le _

/-- The buckets, CPU by CPU. -/
theorem buckets_eq (h : r.Whole cpus) (hfew : r.ended.events.length < 2 ^ 64) :
    ((r.line.log2UsBuckets cpus).map UInt64.toNat).sum =
      ((List.range cpus).map fun cpu => ((List.range 64).map fun b =>
        (r.seen (.histogram b cpu)).times (.histogram b cpu)).sum).sum := by
  have hcolumns : (r.line.log2UsBuckets cpus).map UInt64.toNat =
      (List.range 64).map fun b => ((List.range cpus).map fun cpu =>
        (r.seen (.histogram b cpu)).times (.histogram b cpu)).sum := by
    rw [Line.log2UsBuckets, List.map_map]
    exact List.map_congr_left fun b hb =>
      h.total_eq hfew (mem_columns_histogram (List.mem_range.mp hb))
  rw [hcolumns]
  simpa using Multiset.sum_map_sum_map (List.range 64 : Multiset Nat) (List.range cpus : Multiset Nat)
    (f := fun b cpu => (r.seen (.histogram b cpu)).times (.histogram b cpu))

/-- No sample without its bucket. -/
theorem samples_le (h : r.Whole cpus) (hfew : r.ended.events.length < 2 ^ 64) :
    (r.line.samples cpus).toNat ≤ ((r.line.log2UsBuckets cpus).map UInt64.toNat).sum := by
  have hcounters : Cell.counters 0 ∈ columns := mem_columns_counters (by decide)
  rw [h.buckets_eq hfew, Line.samples, h.total_eq hfew hcounters]
  apply List.sum_le_sum
  intro cpu hcpu
  have hcpu := List.mem_range.mp hcpu
  refine ((r.seen (.counters 0 cpu)).balanced cpu).1.trans ?_
  apply List.sum_le_sum
  intro b hb
  have hb := List.mem_range.mp hb
  exact (h.counters_first (mem_cells hcounters hcpu)
    (mem_cells (mem_columns_histogram hb) hcpu)).times_le _

/-- At the end of the line each CPU has one bucketed sample that is not counted, at most. -/
theorem buckets_le (h : r.Whole cpus) (hfew : r.ended.events.length < 2 ^ 64) :
    ((r.line.log2UsBuckets cpus).map UInt64.toNat).sum ≤
      r.ended.total cpus (.counters 0) + cpus := by
  have hone : r.ended.total cpus (.counters 0) + cpus =
      ((List.range cpus).map fun cpu => r.ended.times (.counters 0 cpu) + 1).sum := by
    rw [List.sum_map_add]
    simp [Memory.total]
  rw [h.buckets_eq hfew, hone]
  apply List.sum_le_sum
  intro cpu hcpu
  have hcpu := List.mem_range.mp hcpu
  refine le_trans ?_ (r.ended.balanced cpu).2
  apply List.sum_le_sum
  intro b hb
  exact (h.between (mem_cells (mem_columns_histogram (List.mem_range.mp hb)) hcpu)).2.times_le _

/-- Samples and unmatched switches are switch-ins that have been handled. -/
theorem switches_le (h : r.Whole cpus) (hfew : r.ended.events.length < 2 ^ 64) :
    (r.line.samples cpus).toNat + (r.line.unmatchedSwitches cpus).toNat ≤
      r.ended.events.countP fun event => event.switchedOn.isSome := by
  have h0 : Cell.counters 0 ∈ columns := mem_columns_counters (by decide)
  have h1 : Cell.counters 1 ∈ columns := mem_columns_counters (by decide)
  have hnodup : ((List.range cpus).map (Cell.counters 0) ++
      (List.range cpus).map (Cell.counters 1)).Nodup := by
    refine List.nodup_append'.mpr ⟨nodup_column h0 cpus, nodup_column h1 cpus, ?_⟩
    simp [List.disjoint_left]
  have hcounters : ∀ cell ∈ (List.range cpus).map (Cell.counters 0) ++
      (List.range cpus).map (Cell.counters 1), (cell.isCounter 0 || cell.isCounter 1) = true := by
    intro cell hcell
    rcases List.mem_append.mp hcell with hcell | hcell
    · obtain ⟨cpu, -, rfl⟩ := List.mem_map.mp hcell
      rfl
    · obtain ⟨cpu, -, rfl⟩ := List.mem_map.mp hcell
      rfl
  have hcount := sum_count_le hnodup hcounters (Runqlat.trace {} r.ended.events)
  rw [Runqlat.trace_switched, List.map_append, List.sum_append, List.map_map, List.map_map] at hcount
  have hcolumn {key : Nat} (hkey : Cell.counters key ∈ columns) :
      (r.line.total cpus (.counters key)).toNat ≤ ((List.range cpus).map
        ((Runqlat.trace {} r.ended.events).count ∘ Cell.counters key)).sum := by
    refine (h.within hfew hkey).2.trans ?_
    apply List.sum_le_sum
    intro cpu _
    exact ((List.take_sublist _ _).trans List.filter_sublist).count_le _
  have hsamples := hcolumn h0
  have hunmatched := hcolumn h1
  rw [Line.samples, Line.unmatchedSwitches]
  omega

theorem times_settled {m : Memory} (h : m.Settled) (cell : Cell) :
    m.times cell = (Runqlat.trace {} m.events).count cell := by
  rw [Memory.times, Memory.shownOn, List.take_of_length_le (h cell.cpu), Memory.onCpu,
    List.count_filter (by simp)]

/-- A line that no handler has met has what the handlers have counted. -/
theorem quiet (h : r.Whole cpus) (hfew : r.ended.events.length < 2 ^ 64)
    (hsettled : r.line.began.Settled) (hevents : r.ended.events = r.line.began.events)
    {column : Column} (hcolumn : column ∈ columns) : r.line.total cpus column =
      Runqlat.sum64 ((List.range cpus).map fun cpu =>
        (Runqlat.run r.ended.events).entry (column cpu)) := by
  have hlater : r.ended.Settled := by
    intro cpu
    obtain ⟨hbegan, -⟩ := List.pairwise_cons.mp h.inOrder
    have hshown := (hbegan r.ended (List.mem_append_right _ (List.mem_singleton_self _))).2 cpu
    rw [Memory.onCpu, hevents]
    exact (hsettled cpu).trans hshown
  have hsum : r.line.began.total cpus column = r.ended.total cpus column := by
    refine congrArg List.sum (List.map_congr_left fun cpu _ => ?_)
    rw [times_settled hsettled, times_settled hlater, hevents]
  have hentries : (List.range cpus).map (fun cpu => (Runqlat.run r.ended.events).entry (column cpu)) =
      ((List.range cpus).map fun cpu => r.ended.times (column cpu)).map UInt64.ofNat := by
    rw [List.map_map]
    refine List.map_congr_left fun cpu _ => ?_
    rw [Runqlat.entry_run, Function.comp_apply, times_settled hlater]
  have hbounds := h.within hfew hcolumn
  have hevents := total_le_events r.ended hcolumn cpus
  rw [hentries, Runqlat.sum64_ofNat, ← UInt64.toNat_inj]
  refine (le_antisymm hbounds.2 (hsum ▸ hbounds.1)).trans ?_
  exact (UInt64.toNat_ofNat_of_lt' (show _ < 2 ^ 64 from hevents.trans_lt hfew)).symm

end Report.Whole

/-- What a line says of the handlers. -/
structure Report.Holds (cpus : Nat) (r : Report) : Prop where
  /-- Each number lies between what its column had at the beginning of the line and at its end. -/
  within : ∀ column ∈ columns, r.line.began.total cpus column ≤ (r.line.total cpus column).toNat ∧
    (r.line.total cpus column).toNat ≤ r.ended.total cpus column
  /-- No sample is missing in the buckets. -/
  samples_le : (r.line.samples cpus).toNat ≤ ((r.line.log2UsBuckets cpus).map UInt64.toNat).sum
  buckets_le : ((r.line.log2UsBuckets cpus).map UInt64.toNat).sum ≤
    r.ended.total cpus (.counters 0) + cpus
  switches_le : (r.line.samples cpus).toNat + (r.line.unmatchedSwitches cpus).toNat ≤
    r.ended.events.countP fun event => event.switchedOn.isSome
  /-- Where no handler has run meanwhile, the line is what the arrays hold. -/
  quiet : r.line.began.Settled → r.ended.events = r.line.began.events → ∀ column ∈ columns,
    r.line.total cpus column = Runqlat.sum64 ((List.range cpus).map fun cpu =>
      (Runqlat.run r.ended.events).entry (column cpu))

/-! ## What a column has had -/

/-- Nothing is shown that was not incremented. -/
def Memory.Sound (m : Memory) : Prop := ∀ cpu, m.shown cpu ≤ (m.onCpu cpu).length

namespace Profiler

variable {cpus : Nat} {p : Profiler} {moments : List Moment}

theorem memory_proceed (p : Profiler) (line : Line) (rest : List Cell) :
    (p.proceed line rest).memory = p.memory := by
  cases rest <;> rfl

/-- What a moment does to the memory. -/
theorem memory_step (cpus : Nat) (p : Profiler) (moment : Moment) :
    (p.step cpus moment).memory = p.memory ∨
      (∃ event, (p.step cpus moment).memory =
        { p.memory with events := p.memory.events ++ [event] }) ∨
      ∃ cpu, p.memory.shown cpu < (p.memory.onCpu cpu).length ∧ (p.step cpus moment).memory =
        { p.memory with shown := fun c => if c = cpu then p.memory.shown c + 1 else p.memory.shown c } := by
  cases moment with
  | handled event => exact .inr (.inl ⟨event, rfl⟩)
  | shows cpu =>
    rw [step]
    split
    · exact .inr (.inr ⟨cpu, ‹_›, rfl⟩)
    · exact .inl rfl
  | begins timestamp =>
    rw [step]
    split
    · exact .inl rfl
    · exact .inl (memory_proceed _ _ _)
  | looks =>
    rw [step]
    split
    · exact .inl (memory_proceed _ _ _)
    · exact .inl rfl
    · exact .inl rfl
  | fails =>
    rw [step]
    split <;> exact .inl rfl

theorem earlier_step (cpus : Nat) (p : Profiler) (moment : Moment) :
    Memory.Earlier p.memory (p.step cpus moment).memory := by
  rcases memory_step cpus p moment with hm | ⟨event, hm⟩ | ⟨cpu, -, hm⟩ <;> rw [hm]
  · exact .refl _
  · exact ⟨List.prefix_append _ _, fun _ => Nat.le_refl _⟩
  · refine ⟨List.prefix_refl _, fun c => ?_⟩
    dsimp only
    split
    · exact Nat.le_succ _
    · exact Nat.le_refl _

theorem sound_step (h : p.memory.Sound) (moment : Moment) : (p.step cpus moment).memory.Sound := by
  rcases memory_step cpus p moment with hm | ⟨event, hm⟩ | ⟨cpu, hlt, hm⟩ <;> rw [hm]
  · exact h
  · exact fun c => (h c).trans (Memory.onCpu_mono (List.prefix_append _ _) c).length_le
  · intro c
    dsimp only
    split
    · rename_i hc
      exact hc ▸ hlt
    · exact h c

/-- A moment raises a column by one at most. -/
theorem total_step (h : p.memory.Sound) {column : Column} (hcolumn : column ∈ columns)
    (moment : Moment) :
    (p.step cpus moment).memory.total cpus column ≤ p.memory.total cpus column + 1 := by
  rcases memory_step cpus p moment with hm | ⟨event, hm⟩ | ⟨cpu, -, hm⟩ <;> rw [hm]
  · exact Nat.le_succ _
  · refine Nat.le_succ_of_le (List.sum_le_sum fun c _ => Nat.le_of_eq ?_)
    have honcpu : p.memory.onCpu (column c).cpu <+:
      Memory.onCpu { p.memory with events := p.memory.events ++ [event] } (column c).cpu :=
        Memory.onCpu_mono (List.prefix_append _ _) _
    obtain ⟨more, hmore⟩ := honcpu
    rw [Memory.times, Memory.times, Memory.shownOn, Memory.shownOn, ← hmore,
      List.take_append_of_le_length (h _)]
  · have htimes : ∀ c, Memory.times { p.memory with
        shown := fun c => if c = cpu then p.memory.shown c + 1 else p.memory.shown c } (column c) ≤
          p.memory.times (column c) + if cpu == c then 1 else 0 := by
      intro c
      simp only [Memory.times, Memory.shownOn, column_cpu hcolumn]
      by_cases hc : c = cpu
      · subst hc
        rw [if_pos rfl, if_pos (beq_self_eq_true _), List.take_add_one, List.count_append]
        refine Nat.add_le_add_left (List.count_le_length.trans ?_) _
        cases (p.memory.onCpu c)[p.memory.shown c]? <;> simp
      · rw [if_neg hc]
        exact Nat.le_add_right _ _
    refine (List.sum_le_sum fun c _ => htimes c).trans ?_
    rw [List.sum_map_add, Runqlat.sum_indicator]
    exact Nat.add_le_add_left (List.nodup_iff_count_le_one.mp List.nodup_range cpu) _

theorem run_snoc (cpus : Nat) (moments : List Moment) (moment : Moment) :
    run cpus (moments ++ [moment]) = (run cpus moments).step cpus moment := by
  rw [run, List.foldl_append]
  rfl

theorem run_sound (cpus : Nat) (moments : List Moment) : (run cpus moments).memory.Sound :=
  List.foldlRecOn (motive := fun p => p.memory.Sound) moments (step cpus) (fun _ => Nat.zero_le _)
    fun _ h moment _ => sound_step h moment

theorem run_earlier {front back : List Moment} (h : front <+: back) :
    Memory.Earlier (run cpus front).memory (run cpus back).memory := by
  obtain ⟨rest, rfl⟩ := h
  induction rest using List.reverseRecOn with
  | nil =>
    rw [List.append_nil]
    exact .refl _
  | append_singleton rest moment ih =>
    rw [← List.append_assoc, run_snoc]
    exact ih.trans (earlier_step _ _ _)

/-- The lines of a run, by the moments at which they began and ended. -/
structure Placed (cpus : Nat) (moments : List Moment) (p : Profiler) : Prop where
  reading : ∀ line rest, p.reading = some (line, rest) →
    ∃ front, front <+: moments ∧ (run cpus front).memory = line.began
  reports : ∀ r ∈ p.reports, ∃ front back, front <+: back ∧ back <+: moments ∧
    (run cpus front).memory = r.line.began ∧ (run cpus back).memory = r.ended

theorem Placed.later (h : Placed cpus moments p) (moment : Moment) :
    Placed cpus (moments ++ [moment]) p where
  reading line rest hreading :=
    have ⟨front, hfront, hbegan⟩ := h.reading line rest hreading
    ⟨front, hfront.trans (List.prefix_append _ _), hbegan⟩
  reports r hr :=
    have ⟨front, back, hfront, hback, hplace⟩ := h.reports r hr
    ⟨front, back, hfront, hback.trans (List.prefix_append _ _), hplace⟩

theorem Placed.proceed (h : Placed cpus moments p) (hmemory : (run cpus moments).memory = p.memory)
    {line : Line} (hbegan : ∃ front, front <+: moments ∧ (run cpus front).memory = line.began)
    (rest : List Cell) : Placed cpus moments (p.proceed line rest) := by
  cases rest with
  | cons cell rest =>
    refine ⟨fun line' rest' hreading => ?_, h.reports⟩
    obtain ⟨rfl, rfl⟩ := Prod.mk.inj (Option.some.inj hreading)
    exact hbegan
  | nil =>
    refine ⟨fun _ _ hreading => (by cases hreading), fun r hr => ?_⟩
    rcases List.mem_append.mp hr with hr | hr
    · exact h.reports r hr
    · obtain rfl := List.mem_singleton.mp hr
      obtain ⟨front, hfront, hplace⟩ := hbegan
      exact ⟨front, moments, hfront, List.prefix_refl _, hplace, hmemory⟩

theorem run_placed (cpus : Nat) (moments : List Moment) : Placed cpus moments (run cpus moments) := by
  induction moments using List.reverseRecOn with
  | nil => exact ⟨fun _ _ h => (by cases h), List.forall_mem_nil _⟩
  | append_singleton moments moment ih =>
    rw [run_snoc]
    generalize hp : run cpus moments = p at ih
    have hmemory := congrArg Profiler.memory hp
    cases moment with
    | handled event => exact ⟨(ih.later _).reading, (ih.later _).reports⟩
    | shows cpu =>
      rw [step]
      split
      · exact ⟨(ih.later _).reading, (ih.later _).reports⟩
      · exact ih.later _
    | begins timestamp =>
      rw [step]
      split
      · exact ih.later _
      · exact (ih.proceed hmemory ⟨moments, List.prefix_refl _, hmemory⟩ _).later _
    | looks =>
      rw [step]
      split
      · rename_i line cell rest hreading
        have hbegan : ∃ front, front <+: moments ∧ (run cpus front).memory =
          Line.began { line with taken := line.taken ++ [(cell, p.memory)] } :=
            ih.reading line (cell :: rest) hreading
        exact (ih.proceed hmemory hbegan rest).later _
      · exact ih.later _
      · exact ih.later _
    | fails =>
      rw [step]
      split
      · exact ⟨fun _ _ hreading => (by cases hreading), (ih.later _).reports⟩
      · exact ih.later _

end Profiler

/-- However the handlers, their increments and the lookups interleave, each line of the reader holds of
the handlers, each of its numbers is one that the column had at some moment between the beginning and
the end of the line, and no number goes back from one line to the next. -/
theorem Profiler.reports_hold (cpus : Nat) (moments : List Moment)
    (hfew : (run cpus moments).memory.events.length < 2 ^ 64) :
    (∀ r ∈ (run cpus moments).reports, r.Holds cpus ∧ ∀ column ∈ columns, ∃ front, front <+: moments ∧
      Memory.Earlier r.line.began (run cpus front).memory ∧
      Memory.Earlier (run cpus front).memory r.ended ∧
      (run cpus front).memory.total cpus column = (r.line.total cpus column).toNat) ∧
      (run cpus moments).reports.Pairwise fun r r' =>
        ∀ column ∈ columns, r.line.total cpus column ≤ r'.line.total cpus column := by
  have h := run_orderly cpus moments
  have hwhole : ∀ r ∈ (run cpus moments).reports,
      r.Whole cpus ∧ r.ended.events.length < 2 ^ 64 := by
    intro r hr
    obtain ⟨horder, hkeys, hended⟩ := h.reports r hr
    exact ⟨⟨horder, hkeys⟩, hended.1.length_le.trans_lt hfew⟩
  constructor
  · intro r hr
    obtain ⟨hw, hlt⟩ := hwhole r hr
    refine ⟨⟨fun column => hw.within hlt, hw.samples_le hlt, hw.buckets_le hlt, hw.switches_le hlt,
      fun hsettled hevents column => hw.quiet hlt hsettled hevents⟩, fun column hcolumn => ?_⟩
    obtain ⟨front, back, hfront, hback, hbegan, hended⟩ := (run_placed cpus moments).reports r hr
    obtain ⟨hleast, hmost⟩ := hw.within hlt hcolumn
    obtain ⟨l, hl, hl', hvalue⟩ := exists_between
      (f := fun l => (run cpus l).memory.total cpus column)
      (fun l moment => by
        rw [run_snoc]
        exact total_step (run_sound cpus l) hcolumn moment)
      hfront (hbegan ▸ hleast) (hended ▸ hmost)
    exact ⟨l, hl'.trans hback, hbegan ▸ run_earlier hl, hended ▸ run_earlier hl', hvalue⟩
  · refine h.succession.imp_of_mem fun {r r'} hr hr' hearlier column hcolumn => ?_
    obtain ⟨hw, hlt⟩ := hwhole r hr
    obtain ⟨hw', hlt'⟩ := hwhole r' hr'
    rw [UInt64.le_iff_toNat_le]
    exact ((hw.within hlt hcolumn).2.trans (hearlier.total_le cpus column)).trans
      (hw'.within hlt' hcolumn).1

/-- The reader comes between the two increments of a sample: it finds it in its bucket only. -/
theorem Profiler.reports_hold_between :
    let moments := [.handled (.wakeup 0 7 1000 ⟨false, []⟩),
      .handled (.switch 0 false 1 1 0 ⟨false, []⟩ 7 [] 9000), .shows 0, .begins 5] ++
        List.replicate 67 .looks
    (run 1 moments).reports.map (fun r => (r.line.samples 1, (r.line.log2UsBuckets 1).sum)) = [(0, 1)] ∧
      ∀ r ∈ (run 1 moments).reports, r.Holds 1 :=
  ⟨by decide +kernel, fun r hr => ((reports_hold 1 _ (by decide +kernel)).1 r hr).1⟩

end WebHtop.Tools
