import WebHtop.Lib.Table
import WebHtop.Lib.Runs

/-!
# The scheduler profiler

The handlers of tools/scheduler/runqlat.bpf.c, one event at a time. Tasks, clocks, the preemption
flag and the state of the task switched out are inputs, and so is what the maps do on their own: an
update of the LRU map is refused or not, and entries are evicted at any time. Lookups in the arrays
succeed for keys in range. `log` is an observation that no function reads.
-/

namespace WebHtop.Tools

open WebHtop.Lib

/-- `BPF_MAP_TYPE_PERCPU_ARRAY` by CPU and key. -/
abbrev PerCpuArray := Nat → Nat → UInt64

/-- `__sync_fetch_and_add(value, 1)` behind a lookup in an array of that many entries. -/
def PerCpuArray.increment (a : PerCpuArray) (entries cpu key : Nat) : PerCpuArray :=
  if key < entries then fun c k => if c = cpu ∧ k = key then a c k + 1 else a c k else a

/-- What has been done for a task. -/
inductive Happening
  | enqueued (tid : UInt32) (time : UInt64)
  | sampled (cpu : Nat) (tid : UInt32) (start now : UInt64)
  | unmatched (cpu : Nat) (tid : UInt32)
  | exited (tid : UInt32)

def Happening.tid : Happening → UInt32
  | enqueued tid _ => tid
  | sampled _ tid _ _ => tid
  | unmatched _ tid => tid
  | exited tid => tid

structure Runqlat where
  enqueued : Table UInt32 UInt64 := []
  histogram : PerCpuArray := fun _ _ => 0
  counters : PerCpuArray := fun _ _ => 0
  log : List Happening := []

/-- What an update of the LRU map comes to, besides the new entry. -/
structure Update where
  refused : Bool
  evicted : List UInt32

inductive Event
  | wakeup (cpu : Nat) (task : UInt32) (now : UInt64) (update : Update)
  | newTask (cpu : Nat) (task : UInt32) (now : UInt64) (update : Update)
  | switch (cpu : Nat) (preempt : Bool) (prev prevState : UInt32) (enqueuedAt : UInt64)
      (update : Update) (next : UInt32) (evicted : List UInt32) (now : UInt64)
  | exit (task : UInt32)
  | evicted (tids : List UInt32)

/-- The loop over the bits of a delay. -/
def bucketOf (us : UInt64) : Nat :=
  (List.range' 1 63).foldl (fun bucket bit => if us >>> UInt64.ofNat bit ≠ 0 then bit else bucket) 0

namespace Runqlat

/-- The LRU map gives up entries. -/
def evict (s : Runqlat) (tids : List UInt32) : Runqlat :=
  { s with enqueued := s.enqueued.filter fun e => !tids.contains e.1 }

/-- 0: samples, 1: switch-ins without an enqueue timestamp, 2: map update failures. -/
def count (s : Runqlat) (cpu key : Nat) : Runqlat :=
  { s with counters := s.counters.increment 3 cpu key }

def enqueue (s : Runqlat) (cpu : Nat) (tid : UInt32) (now : UInt64) (update : Update) : Runqlat :=
  if tid = 0 then s
  else
    let s := s.evict update.evicted
    if update.refused then s.count cpu 2
    else { s with enqueued := s.enqueued.assign tid now, log := s.log ++ [.enqueued tid now] }

def onWakeup (s : Runqlat) (cpu : Nat) (task : UInt32) (now : UInt64) (update : Update) : Runqlat :=
  s.enqueue cpu task now update

def onNewTask (s : Runqlat) (cpu : Nat) (task : UInt32) (now : UInt64) (update : Update) : Runqlat :=
  s.enqueue cpu task now update

/-- The part of on_switch for the task switched in. -/
def switchIn (s : Runqlat) (cpu : Nat) (tid : UInt32) (now : UInt64) : Runqlat :=
  if tid = 0 then s
  else
    match s.enqueued.get tid with
    | none => { s.count cpu 1 with log := s.log ++ [.unmatched cpu tid] }
    | some start =>
      let s := { s with enqueued := s.enqueued.erase tid }
      if now < start then { s.count cpu 1 with log := s.log ++ [.unmatched cpu tid] }
      else
        let bucket := bucketOf ((now - start) / 1000)
        let s := { s with histogram := s.histogram.increment 64 cpu bucket }
        { s.count cpu 0 with log := s.log ++ [.sampled cpu tid start now] }

def onSwitch (s : Runqlat) (cpu : Nat) (preempt : Bool) (prev prevState : UInt32)
    (enqueuedAt : UInt64) (update : Update) (next : UInt32) (evicted : List UInt32) (now : UInt64) :
    Runqlat :=
  let s := if preempt ∨ prevState = 0 then s.enqueue cpu prev enqueuedAt update else s
  (s.evict evicted).switchIn cpu next now

def onExit (s : Runqlat) (tid : UInt32) : Runqlat :=
  { s with enqueued := s.enqueued.erase tid, log := s.log ++ [.exited tid] }

def step (s : Runqlat) : Event → Runqlat
  | .wakeup cpu task now update => s.onWakeup cpu task now update
  | .newTask cpu task now update => s.onNewTask cpu task now update
  | .switch cpu preempt prev prevState enqueuedAt update next evicted now =>
    s.onSwitch cpu preempt prev prevState enqueuedAt update next evicted now
  | .exit task => s.onExit task
  | .evicted tids => s.evict tids

def run (events : List Event) : Runqlat := events.foldl step {}

end Runqlat

/-! ## Delays -/

theorem shift_ne_zero {us : UInt64} {bit : Nat} (h : bit < 64) :
    us >>> UInt64.ofNat bit ≠ 0 ↔ 2 ^ bit ≤ us.toNat := by
  have hbit : (UInt64.ofNat bit).toNat % 64 = bit := by
    rw [UInt64.toNat_ofNat_of_lt' (show bit < 2 ^ 64 by omega)]
    exact Nat.mod_eq_of_lt h
  have hzero : us >>> UInt64.ofNat bit = 0 ↔ us.toNat / 2 ^ bit = 0 := by
    rw [← UInt64.toNat_inj, UInt64.toNat_shiftRight, hbit, Nat.shiftRight_eq_div_pow]
    rfl
  rw [Ne, hzero, Nat.div_eq_zero_iff]
  have hpos := Nat.two_pow_pos bit
  omega

/-- The last bit of a row that the delay reaches. -/
theorem bucket_loop (us : UInt64) {n : Nat} (hn : n < 64) :
    let b := (List.range' 1 n).foldl
      (fun bucket bit => if us >>> UInt64.ofNat bit ≠ 0 then bit else bucket) 0
    b ≤ n ∧ (b = 0 ∨ 2 ^ b ≤ us.toNat) ∧ ∀ bit, b < bit → bit ≤ n → us.toNat < 2 ^ bit := by
  induction n with
  | zero =>
    refine ⟨Nat.le_refl 0, Or.inl rfl, ?_⟩
    intro bit hlow hhigh
    exact absurd hlow (Nat.not_lt.mpr hhigh)
  | succ n ih =>
    obtain ⟨hle, hreached, hbeyond⟩ := ih (by omega)
    dsimp only at hle hreached hbeyond ⊢
    rw [List.range'_1_concat, List.foldl_append, List.foldl_cons, List.foldl_nil]
    generalize (List.range' 1 n).foldl
      (fun bucket bit => if us >>> UInt64.ofNat bit ≠ 0 then bit else bucket) 0 = b at *
    have hshift : us >>> UInt64.ofNat (1 + n) ≠ 0 ↔ 2 ^ (1 + n) ≤ us.toNat :=
      shift_ne_zero (by omega)
    by_cases hbit : us >>> UInt64.ofNat (1 + n) ≠ 0
    · rw [if_pos hbit]
      refine ⟨by omega, Or.inr (hshift.mp hbit), ?_⟩
      intro bit hlow hhigh
      omega
    · rw [if_neg hbit]
      refine ⟨by omega, hreached, ?_⟩
      intro bit hlow hhigh
      by_cases hlast : bit = 1 + n
      · rw [hlast]
        exact Nat.not_le.mp fun h => hbit (hshift.mpr h)
      · exact hbeyond bit hlow (by omega)

/-- The buckets are the integer logarithm. -/
def InBucket (us : UInt64) (b : Nat) : Prop :=
  (us.toNat ≤ 1 ∧ b = 0) ∨ (1 < us.toNat ∧ 2 ^ b ≤ us.toNat ∧ us.toNat < 2 ^ (b + 1))

theorem bucketOf_spec (us : UInt64) : bucketOf us < 64 ∧ InBucket us (bucketOf us) := by
  obtain ⟨hle, hreached, hbeyond⟩ := bucket_loop us (n := 63) (by omega)
  unfold bucketOf InBucket
  generalize (List.range' 1 63).foldl
    (fun bucket bit => if us >>> UInt64.ofNat bit ≠ 0 then bit else bucket) 0 = b at *
  have hlt : us.toNat < 2 ^ (b + 1) := by
    by_cases hlast : b = 63
    · rw [hlast]
      exact us.toNat_lt
    · exact hbeyond (b + 1) (Nat.lt_succ_self b) (by omega)
  refine ⟨by omega, ?_⟩
  by_cases hone : us.toNat ≤ 1
  · left
    refine ⟨hone, ?_⟩
    rcases hreached with h0 | hpow
    · exact h0
    · by_contra hne
      have htwo : 2 ^ 1 ≤ 2 ^ b := Nat.pow_le_pow_right (by omega) (by omega)
      omega
  · right
    refine ⟨by omega, ?_, hlt⟩
    rcases hreached with rfl | hpow
    · omega
    · exact hpow

/-! ## The account -/

/-- The last thing that was done for a task. -/
def latest (tid : UInt32) (log : List Happening) : Option Happening :=
  (log.filter fun h => h.tid = tid).getLast?

namespace Happening

/-- A sample taken on the CPU. -/
def isSample (cpu : Nat) : Happening → Bool
  | sampled c _ _ _ => c == cpu
  | _ => false

def isUnmatched (cpu : Nat) : Happening → Bool
  | unmatched c _ => c == cpu
  | _ => false

def bucket : Happening → Nat
  | sampled _ _ start now => bucketOf ((now - start) / 1000)
  | _ => 0

end Happening

/-- The CPU of a switch that brings in a task. -/
def Event.switchedOn : Event → Option Nat
  | .switch cpu _ _ _ _ _ next _ _ => if next = 0 then none else some cpu
  | _ => none

/-- Samples are measured from the last enqueue of their task. -/
def Measured (log : List Happening) : Prop :=
  ∀ before cpu tid start now after, log = before ++ .sampled cpu tid start now :: after →
    latest tid before = some (.enqueued tid start) ∧ start ≤ now

/-- The log counts the switches. -/
def switched (cpu : Nat) (log : List Happening) : Nat :=
  log.countP (Happening.isSample cpu) + log.countP (Happening.isUnmatched cpu)

/-- Every time stamp in the map is that of the task's last enqueue, with nothing done for the task
since; the arrays hold what the log counts. -/
structure Runqlat.Consistent (s : Runqlat) : Prop where
  stamped : ∀ tid time, s.enqueued.get tid = some time →
    latest tid s.log = some (.enqueued tid time)
  measured : Measured s.log
  histogram : ∀ cpu b, b < 64 → s.histogram cpu b =
    UInt64.ofNat (s.log.countP fun h => h.isSample cpu && h.bucket == b)
  samples : ∀ cpu, s.counters cpu 0 = UInt64.ofNat (s.log.countP (Happening.isSample cpu))
  unmatched : ∀ cpu, s.counters cpu 1 = UInt64.ofNat (s.log.countP (Happening.isUnmatched cpu))

theorem bucket_lt (h : Happening) : h.bucket < 64 := by
  cases h with
  | sampled cpu tid start now => exact (bucketOf_spec _).1
  | enqueued tid time => exact Nat.succ_pos 63
  | unmatched cpu tid => exact Nat.succ_pos 63
  | exited tid => exact Nat.succ_pos 63

theorem latest_snoc_self (log : List Happening) (h : Happening) :
    latest h.tid (log ++ [h]) = some h := by
  simp [latest]

theorem latest_snoc_ne {tid : UInt32} {h : Happening} (log : List Happening) (hne : h.tid ≠ tid) :
    latest tid (log ++ [h]) = latest tid log := by
  simp [latest, hne]

theorem measured_snoc {log : List Happening} {h : Happening} (hm : Measured log)
    (hlast : ∀ cpu tid start now, h = .sampled cpu tid start now →
      latest tid log = some (.enqueued tid start) ∧ start ≤ now) : Measured (log ++ [h]) := by
  intro before cpu tid start now after hsplit
  rcases List.eq_nil_or_concat after with rfl | ⟨rest, x, rfl⟩
  · obtain ⟨rfl, hh⟩ := List.append_inj' hsplit rfl
    exact hlast cpu tid start now (List.singleton_inj.mp hh)
  · have hfront : log ++ [h] = (before ++ .sampled cpu tid start now :: rest) ++ [x] := by
      simpa using hsplit
    exact hm before cpu tid start now rest (List.append_inj' hfront rfl).1

theorem increment_get (a : PerCpuArray) {entries key : Nat} (hkey : key < entries) (cpu c k : Nat) :
    a.increment entries cpu key c k = if c = cpu ∧ k = key then a c k + 1 else a c k := by
  rw [PerCpuArray.increment, if_pos hkey]

/-- A counter and its count grow together. -/
theorem tally_snoc {p : Happening → Bool} {log : List Happening} {h : Happening} {n n' : UInt64}
    (hn : n = UInt64.ofNat (log.countP p)) (hn' : n' = if p h then n + 1 else n) :
    n' = UInt64.ofNat ((log ++ [h]).countP p) := by
  rw [List.countP_append, List.countP_singleton, hn', hn]
  cases p h with
  | true => exact (UInt64.ofNat_add _ _).symm
  | false => rfl

namespace Runqlat

theorem Consistent.evict {s : Runqlat} (h : Consistent s) (tids : List UInt32) :
    Consistent (s.evict tids) := by
  refine ⟨fun tid time hget => ?_, h.measured, h.histogram, h.samples, h.unmatched⟩
  have hfilter := Table.get_filter (fun tid => !tids.contains tid) s.enqueued tid
  rw [show (s.evict tids).enqueued.get tid = _ from hfilter] at hget
  split at hget
  · exact h.stamped tid time hget
  · cases hget

theorem count_other {s : Runqlat} {key k : Nat} (hne : k ≠ key) (cpu c : Nat) :
    (s.count cpu key).counters c k = s.counters c k := by
  show PerCpuArray.increment s.counters 3 cpu key c k = _
  unfold PerCpuArray.increment
  split
  · exact if_neg fun h => hne h.2
  · rfl

theorem count_self (s : Runqlat) (key : Nat) (hkey : key < 3) (cpu c : Nat) :
    (s.count cpu key).counters c key =
      if cpu == c then s.counters c key + 1 else s.counters c key := by
  show PerCpuArray.increment s.counters 3 cpu key c key = _
  rw [increment_get _ hkey]
  by_cases hc : c = cpu
  · rw [if_pos ⟨hc, rfl⟩, if_pos (beq_iff_eq.mpr hc.symm)]
  · rw [if_neg fun h => hc h.1, if_neg fun h => hc (beq_iff_eq.mp h).symm]

/-- A refused update is counted apart. -/
theorem Consistent.refused {s : Runqlat} (h : Consistent s) (cpu : Nat) :
    Consistent (s.count cpu 2) :=
  ⟨h.stamped, h.measured, h.histogram,
    fun c => (count_other (by omega) cpu c).trans (h.samples c),
    fun c => (count_other (by omega) cpu c).trans (h.unmatched c)⟩

theorem Consistent.enqueue {s : Runqlat} (h : Consistent s) (cpu : Nat) (tid : UInt32)
    (now : UInt64) (update : Update) : Consistent (s.enqueue cpu tid now update) := by
  unfold Runqlat.enqueue
  split
  · exact h
  have he := h.evict update.evicted
  dsimp only
  split
  · exact he.refused cpu
  generalize s.evict update.evicted = s at he
  refine ⟨fun tid' time hget => ?_, measured_snoc he.measured ?_, fun c b hb => ?_, fun c => ?_,
    fun c => ?_⟩
  · rw [show Table.get _ tid' = _ from Table.get_assign s.enqueued tid now tid'] at hget
    by_cases htid : tid' = tid
    · rw [if_pos htid] at hget
      obtain rfl := Option.some.inj hget
      rw [htid]
      exact latest_snoc_self s.log (.enqueued tid now)
    · rw [if_neg htid] at hget
      exact (latest_snoc_ne s.log (Ne.symm htid)).trans (he.stamped tid' time hget)
  · intro cpu tid start now hsample
    cases hsample
  · exact tally_snoc (he.histogram c b hb) rfl
  · exact tally_snoc (he.samples c) rfl
  · exact tally_snoc (he.unmatched c) rfl

/-- The time stamps that are left when something other than an enqueue is done for a task. -/
def Without (s : Runqlat) (tid : UInt32) (t : Table UInt32 UInt64) : Prop :=
  ∀ tid' time, t.get tid' = some time → tid' ≠ tid ∧ s.enqueued.get tid' = some time

theorem without_erase (s : Runqlat) (tid : UInt32) : Without s tid (s.enqueued.erase tid) := by
  intro tid' time hget
  rw [Table.get_erase] at hget
  split at hget
  · cases hget
  · rename_i hne
    exact ⟨hne, hget⟩

theorem Consistent.stamped_snoc {s : Runqlat} (hs : Consistent s) {h : Happening}
    {t : Table UInt32 UInt64} (ht : Without s h.tid t) :
    ∀ tid time, t.get tid = some time → latest tid (s.log ++ [h]) = some (.enqueued tid time) := by
  intro tid time hget
  obtain ⟨hne, hold⟩ := ht tid time hget
  exact (latest_snoc_ne s.log hne.symm).trans (hs.stamped tid time hold)

theorem Consistent.missed {s : Runqlat} (h : Consistent s) {tid : UInt32}
    {t : Table UInt32 UInt64} (ht : Without s tid t) (cpu : Nat) :
    Consistent { s.count cpu 1 with enqueued := t, log := s.log ++ [.unmatched cpu tid] } := by
  refine ⟨h.stamped_snoc ht, measured_snoc h.measured ?_, fun c b hb => ?_, fun c => ?_, fun c => ?_⟩
  · intro cpu tid start now hsample
    cases hsample
  · exact tally_snoc (h.histogram c b hb) rfl
  · exact tally_snoc (h.samples c) (count_other Nat.zero_ne_one cpu c)
  · exact tally_snoc (h.unmatched c) (count_self s 1 (by omega) cpu c)

theorem Consistent.sampled {s : Runqlat} (h : Consistent s) {tid : UInt32} {start now : UInt64}
    (hget : s.enqueued.get tid = some start) (hle : ¬ now < start) (cpu : Nat) :
    Consistent
      { s.count cpu 0 with
        enqueued := s.enqueued.erase tid
        histogram := s.histogram.increment 64 cpu (bucketOf ((now - start) / 1000))
        log := s.log ++ [.sampled cpu tid start now] } := by
  refine ⟨h.stamped_snoc (without_erase s tid), measured_snoc h.measured ?_, fun c b hb => ?_,
    fun c => ?_, fun c => ?_⟩
  · intro cpu' tid' start' now' hsample
    obtain ⟨-, rfl, rfl, rfl⟩ := Happening.sampled.inj hsample
    exact ⟨h.stamped tid start hget, UInt64.not_lt.mp hle⟩
  · refine tally_snoc (h.histogram c b hb) ?_
    show s.histogram.increment 64 cpu _ c b = _
    rw [increment_get _ (bucketOf_spec _).1]
    have hsame : (c = cpu ∧ b = bucketOf ((now - start) / 1000)) ↔
        (Happening.isSample c (.sampled cpu tid start now) &&
          (Happening.sampled cpu tid start now).bucket == b) = true := by
      rw [Bool.and_eq_true]
      exact and_congr (eq_comm.trans beq_iff_eq.symm) (eq_comm.trans beq_iff_eq.symm)
    exact if_congr hsame rfl rfl
  · exact tally_snoc (h.samples c) (count_self s 0 (by omega) cpu c)
  · exact tally_snoc (h.unmatched c) (count_other Nat.one_ne_zero cpu c)

theorem Consistent.switchIn {s : Runqlat} (h : Consistent s) (cpu : Nat) (tid : UInt32)
    (now : UInt64) : Consistent (s.switchIn cpu tid now) := by
  unfold Runqlat.switchIn
  split
  · exact h
  split
  · rename_i hnone
    have hwithout : Without s tid s.enqueued := by
      intro tid' time hget
      refine ⟨?_, hget⟩
      rintro rfl
      rw [hnone] at hget
      cases hget
    exact h.missed hwithout cpu
  · rename_i start hget
    dsimp only
    split
    · exact h.missed (without_erase s tid) cpu
    · rename_i hle
      exact h.sampled hget hle cpu

theorem Consistent.step {s : Runqlat} (h : Consistent s) (event : Event) :
    Consistent (s.step event) := by
  cases event with
  | wakeup cpu task now update => exact h.enqueue cpu task now update
  | newTask cpu task now update => exact h.enqueue cpu task now update
  | switch cpu preempt prev prevState enqueuedAt update next evicted now =>
    have hprev : Consistent (if preempt ∨ prevState = 0 then s.enqueue cpu prev enqueuedAt update
        else s) := by
      split
      · exact h.enqueue cpu prev enqueuedAt update
      · exact h
    exact (hprev.evict evicted).switchIn cpu next now
  | exit task =>
    refine ⟨h.stamped_snoc (without_erase s task), measured_snoc h.measured ?_, fun c b hb => ?_,
      fun c => ?_, fun c => ?_⟩
    · intro cpu tid start now hsample
      cases hsample
    · exact tally_snoc (h.histogram c b hb) rfl
    · exact tally_snoc (h.samples c) rfl
    · exact tally_snoc (h.unmatched c) rfl
  | evicted tids => exact h.evict tids

theorem run_consistent (events : List Event) : Consistent (run events) := by
  have hstart : Consistent {} := by
    refine ⟨fun tid time hget => ?_, fun before cpu tid start now after hsplit => ?_,
      fun _ _ _ => rfl, fun _ => rfl, fun _ => rfl⟩
    · cases hget
    · simp at hsplit
  exact List.foldlRecOn events step hstart fun s h event _ => h.step event

/-! ## The switches -/

theorem switched_snoc (cpu : Nat) (log : List Happening) (h : Happening) :
    switched cpu (log ++ [h]) =
      switched cpu log + if h.isSample cpu || h.isUnmatched cpu then 1 else 0 := by
  unfold switched
  rw [List.countP_append, List.countP_append, List.countP_singleton, List.countP_singleton]
  cases h <;> simp [Happening.isSample, Happening.isUnmatched] <;> omega

theorem enqueue_switched (s : Runqlat) (c cpu : Nat) (tid : UInt32) (now : UInt64)
    (update : Update) : switched c (s.enqueue cpu tid now update).log = switched c s.log := by
  unfold Runqlat.enqueue
  split
  · rfl
  dsimp only
  split
  · rfl
  · exact (switched_snoc c s.log (.enqueued tid now)).trans (Nat.add_zero _)

/-- A task that is switched in is sampled or counted as unmatched. -/
theorem switchIn_switched (s : Runqlat) (c cpu : Nat) (tid : UInt32) (now : UInt64) :
    switched c (s.switchIn cpu tid now).log =
      switched c s.log + if (if tid = 0 then none else some cpu) = some c then 1 else 0 := by
  unfold Runqlat.switchIn
  split
  · simp
  have hone (h : Happening) (hc : (h.isSample c || h.isUnmatched c) = (cpu == c)) :
      switched c (s.log ++ [h]) = switched c s.log + if some cpu = some c then 1 else 0 := by
    rw [switched_snoc, hc]
    simp
  split
  · exact hone (.unmatched cpu tid) (Bool.false_or _)
  · dsimp only
    split
    · exact hone (.unmatched cpu tid) (Bool.false_or _)
    · exact hone (.sampled cpu tid _ now) (Bool.or_false _)

theorem step_switched (s : Runqlat) (c : Nat) (event : Event) :
    switched c (s.step event).log =
      switched c s.log + if event.switchedOn = some c then 1 else 0 := by
  cases event with
  | wakeup cpu task now update => exact enqueue_switched s c cpu task now update
  | newTask cpu task now update => exact enqueue_switched s c cpu task now update
  | switch cpu preempt prev prevState enqueuedAt update next evicted now =>
    refine (switchIn_switched _ c cpu next now).trans ?_
    congr 1
    show switched c (if preempt ∨ prevState = 0 then s.enqueue cpu prev enqueuedAt update
      else s).log = _
    split
    · exact enqueue_switched s c cpu prev enqueuedAt update
    · rfl
  | exit task => exact (switched_snoc c s.log (.exited task)).trans (Nat.add_zero _)
  | evicted tids => rfl

theorem run_switched (c : Nat) (events : List Event) :
    switched c (run events).log = events.countP fun e => e.switchedOn = some c := by
  induction events using List.reverseRecOn with
  | nil => rfl
  | append_singleton events event ih =>
    rw [run, List.foldl_append, List.foldl_cons, List.foldl_nil, ← run, step_switched, ih,
      List.countP_append, List.countP_singleton]
    simp only [decide_eq_true_eq]

/-! ## Sums -/

/-- The sum of 64-bit counters. -/
def sum64 (l : List UInt64) : UInt64 := l.foldr (fun x sum => x + sum) 0

theorem sum64_cons (x : UInt64) (l : List UInt64) : sum64 (x :: l) = x + sum64 l := rfl

theorem sum64_ofNat (l : List Nat) : sum64 (l.map UInt64.ofNat) = UInt64.ofNat l.sum := by
  induction l with
  | nil => rfl
  | cons n l ih => rw [List.map_cons, sum64_cons, List.sum_cons, ih, UInt64.ofNat_add]

theorem sum_indicator (l : List Nat) (k : Nat) :
    (l.map fun b => if k == b then 1 else 0).sum = l.count k := by
  induction l with
  | nil => rfl
  | cons b l ih =>
    have hcomm : (k == b) = (b == k) := BEq.comm
    rw [List.map_cons, List.sum_cons, ih, List.count_cons, hcomm, Nat.add_comm]

/-- Every element of a kind is in one of the buckets. -/
theorem sum_countP {α : Type} (p : α → Bool) (bucket : α → Nat) {n : Nat}
    (h : ∀ x, bucket x < n) (l : List α) :
    ((List.range n).map fun b => l.countP fun x => p x && bucket x == b).sum = l.countP p := by
  induction l with
  | nil => simp
  | cons x l ih =>
    have hone : (List.range n).count (bucket x) = 1 :=
      List.count_eq_one_of_mem List.nodup_range (List.mem_range.mpr (h x))
    simp only [List.countP_cons, List.sum_map_add, ih]
    congr 1
    cases p x with
    | true => simpa using (sum_indicator (List.range n) (bucket x)).trans hone
    | false => simp

theorem sum64_add {α : Type} (l : List α) (f g : α → UInt64) :
    sum64 (l.map fun x => f x + g x) = sum64 (l.map f) + sum64 (l.map g) := by
  induction l with
  | nil => rfl
  | cons x l ih =>
    simp only [List.map_cons, sum64_cons, ih]
    ac_rfl

theorem sum64_zero {α : Type} (l : List α) : sum64 (l.map fun _ => (0 : UInt64)) = 0 := by
  induction l with
  | nil => rfl
  | cons x l ih => rw [List.map_cons, sum64_cons, ih, UInt64.zero_add]

/-- Elements of several kinds, counted by kind. -/
theorem countP_kind {α : Type} (kind : α → Option Nat) {k : Nat} {ks : List Nat} (hk : k ∉ ks)
    (l : List α) : (l.countP fun x => (kind x).any ((k :: ks).contains ·)) =
      (l.countP fun x => kind x = some k) + l.countP fun x => (kind x).any (ks.contains ·) := by
  induction l with
  | nil => rfl
  | cons x l ih =>
    simp only [List.countP_cons, ih]
    cases kind x with
    | none => simp
    | some c =>
      by_cases hc : c = k
      · subst hc
        simp [hk]
        omega
      · simp [hc]
        omega

end Runqlat

open Runqlat

/-- What is read from an array: the sum over the CPUs. -/
def readCounter (a : PerCpuArray) (key : Nat) (cpus : List Nat) : UInt64 :=
  sum64 (cpus.map fun cpu => a cpu key)

/-- The account of the profiler after some events. Sums are those of 64-bit counters; with fewer
than 2^64 events they do not wrap. -/
structure Accounted (events : List Event) (s : Runqlat) : Prop where
  /-- The buckets of a CPU add up to its samples. -/
  sum : ∀ cpu, sum64 ((List.range 64).map (s.histogram cpu)) = s.counters cpu 0
  /-- Every switch-in of a task is a sample or unmatched. -/
  switches : ∀ cpu, s.counters cpu 0 + s.counters cpu 1 =
    UInt64.ofNat (events.countP fun e => e.switchedOn = some cpu)
  exact : events.length < 2 ^ 64 → ∀ cpu,
    ((List.range 64).map fun b => (s.histogram cpu b).toNat).sum = (s.counters cpu 0).toNat ∧
      (s.counters cpu 0).toNat + (s.counters cpu 1).toNat =
        events.countP fun e => e.switchedOn = some cpu
  /-- The same over all CPUs. -/
  read : ∀ cpus : List Nat, cpus.Nodup → (∀ e ∈ events, ∀ cpu ∈ e.switchedOn, cpu ∈ cpus) →
    sum64 ((List.range 64).map fun b => readCounter s.histogram b cpus) =
        readCounter s.counters 0 cpus ∧
      readCounter s.counters 0 cpus + readCounter s.counters 1 cpus =
        UInt64.ofNat (events.countP fun e => e.switchedOn.isSome)
  /-- Each bucket holds the samples whose delay falls into it. -/
  buckets : ∀ cpu, ∀ b < 64, s.histogram cpu b =
    UInt64.ofNat (s.log.countP fun h => h.isSample cpu && h.bucket == b)
  measured : Measured s.log
  /-- Behind a switch-in or an exit of a task, a sample of it needs another enqueue. -/
  fresh : ∀ before h middle cpu tid start now after,
    s.log = before ++ h :: (middle ++ .sampled cpu tid start now :: after) → h.tid = tid →
      (∀ time, h ≠ .enqueued tid time) → .enqueued tid start ∈ middle

theorem read_sum {a b : PerCpuArray} {key : Nat}
    (h : ∀ cpu, sum64 ((List.range 64).map (a cpu)) = b cpu key) (cpus : List Nat) :
    sum64 ((List.range 64).map fun k => readCounter a k cpus) = readCounter b key cpus := by
  induction cpus with
  | nil => exact sum64_zero _
  | cons cpu cpus ih =>
    have hcons (c : PerCpuArray) (k : Nat) :
        readCounter c k (cpu :: cpus) = c cpu k + readCounter c k cpus := rfl
    simp only [hcons, sum64_add]
    exact congr (congrArg _ (h cpu)) ih

theorem read_switches {a : PerCpuArray} {events : List Event}
    (h : ∀ cpu, a cpu 0 + a cpu 1 = UInt64.ofNat (events.countP fun e => e.switchedOn = some cpu))
    {cpus : List Nat} (hn : cpus.Nodup) :
    readCounter a 0 cpus + readCounter a 1 cpus =
      UInt64.ofNat (events.countP fun e => e.switchedOn.any (cpus.contains ·)) := by
  induction cpus with
  | nil =>
    have hnone : (events.countP fun e => e.switchedOn.any ([].contains ·)) = 0 := by
      apply List.countP_eq_zero.mpr
      intro e _
      cases e.switchedOn <;> simp
    rw [hnone]
    rfl
  | cons cpu cpus ih =>
    obtain ⟨hcpu, hn⟩ := List.nodup_cons.mp hn
    rw [countP_kind Event.switchedOn hcpu, UInt64.ofNat_add, ← ih hn, ← h cpu]
    simp only [readCounter, List.map_cons, sum64_cons]
    ac_rfl

theorem fresh_of_measured {log : List Happening} (hm : Measured log) :
    ∀ before h middle cpu tid start now after,
      log = before ++ h :: (middle ++ .sampled cpu tid start now :: after) → h.tid = tid →
        (∀ time, h ≠ .enqueued tid time) → .enqueued tid start ∈ middle := by
  intro before h middle cpu tid start now after hlog htid hother
  have hsplit : log = (before ++ h :: middle) ++ .sampled cpu tid start now :: after := by
    rw [hlog, List.append_assoc, List.cons_append]
  obtain ⟨hlatest, -⟩ := hm _ cpu tid start now after hsplit
  have hfilter : ((before ++ h :: middle).filter fun h => h.tid = tid) =
      (before.filter fun h => h.tid = tid) ++ h :: middle.filter fun h => h.tid = tid := by
    rw [List.filter_append, List.filter_cons_of_pos (by simp [htid])]
  rw [latest, hfilter] at hlatest
  rcases List.eq_nil_or_concat (middle.filter fun h => h.tid = tid) with hnil | ⟨front, x, hx⟩
  · rw [hnil, List.getLast?_concat] at hlatest
    exact absurd (Option.some.inj hlatest) (hother start)
  · rw [List.concat_eq_append] at hx
    rw [hx, ← List.cons_append, ← List.append_assoc, List.getLast?_concat] at hlatest
    have hmem : x ∈ middle.filter fun h => h.tid = tid := by
      rw [hx]
      exact List.mem_append_right front (List.mem_singleton.mpr rfl)
    rw [← Option.some.inj hlatest]
    exact List.mem_of_mem_filter hmem

theorem Runqlat.Consistent.sum {s : Runqlat} (h : Consistent s) (cpu : Nat) :
    sum64 ((List.range 64).map (s.histogram cpu)) = s.counters cpu 0 := by
  have hmap : (List.range 64).map (s.histogram cpu) =
      ((List.range 64).map fun b => s.log.countP fun h => h.isSample cpu && h.bucket == b).map
        UInt64.ofNat := by
    rw [List.map_map]
    exact List.map_congr_left fun b hb => h.histogram cpu b (List.mem_range.mp hb)
  rw [hmap, sum64_ofNat, sum_countP (Happening.isSample cpu) Happening.bucket bucket_lt, h.samples]

/-- Whatever the tasks, the clocks and the maps do. -/
theorem runqlat_accounted (events : List Event) :
    Accounted events (run events) ∧ ∀ us, bucketOf us < 64 ∧ InBucket us (bucketOf us) := by
  have hs := run_consistent events
  have hswitches (cpu : Nat) : (run events).counters cpu 0 + (run events).counters cpu 1 =
      UInt64.ofNat (events.countP fun e => e.switchedOn = some cpu) := by
    rw [hs.samples, hs.unmatched, ← UInt64.ofNat_add, ← run_switched]
    rfl
  refine ⟨⟨hs.sum, hswitches, ?_, ?_, hs.histogram, hs.measured, fresh_of_measured hs.measured⟩,
    bucketOf_spec⟩
  · intro hfew cpu
    have hcount := run_switched cpu events
    have hle : events.countP (fun e => decide (e.switchedOn = some cpu)) ≤ events.length :=
      List.countP_le_length
    unfold switched at hcount
    have hvalue {n : Nat} (hn : n ≤ (run events).log.countP (Happening.isSample cpu)) :
        (UInt64.ofNat n).toNat = n := UInt64.toNat_ofNat_of_lt' (show n < 2 ^ 64 by omega)
    constructor
    · have hmap : (List.range 64).map (fun b => ((run events).histogram cpu b).toNat) =
          (List.range 64).map fun b =>
            (run events).log.countP fun h => h.isSample cpu && h.bucket == b := by
        apply List.map_congr_left
        intro b hb
        rw [hs.histogram cpu b (List.mem_range.mp hb)]
        exact hvalue (List.countP_mono_left fun h _ hp => (Bool.and_eq_true _ _ ▸ hp).1)
      rw [hmap, sum_countP (Happening.isSample cpu) Happening.bucket bucket_lt, hs.samples,
        hvalue (Nat.le_refl _)]
    · rw [hs.samples, hs.unmatched, hvalue (Nat.le_refl _),
        UInt64.toNat_ofNat_of_lt' (show _ < 2 ^ 64 by omega), hcount]
  · intro cpus hn hall
    refine ⟨read_sum hs.sum cpus, (read_switches hswitches hn).trans ?_⟩
    congr 1
    apply List.countP_congr
    intro e he
    cases hcpu : e.switchedOn with
    | none => simp
    | some cpu => simp [hall e he cpu hcpu]

/-- Task 7 is woken, runs, is preempted while its new entry is evicted, and is switched in again. -/
example :
    let s := run [.wakeup 0 7 1000 ⟨false, []⟩, .switch 0 false 1 1 0 ⟨false, []⟩ 7 [] 9000,
      .switch 1 true 7 0 10000 ⟨false, []⟩ 8 [7] 11000,
      .switch 1 true 8 0 12000 ⟨true, []⟩ 7 [] 13000]
    (s.counters 0 0, s.counters 1 1, s.counters 1 2, s.histogram 0 3) = (1, 2, 1, 1) := by
  decide

end WebHtop.Tools
