import WebHtop.Server.Collectors.ByteAccounting

/-!
# The rows of the processes

What the loop over the processes gathers: the records it accepts, in order, and the counts of
the others. Then the row checks of `Decode` on the rows that are published, in binary64
arithmetic: every field passes but the state, a `char` that is written as a signed number.
-/

namespace WebHtop.Server.Collectors

open WebHtop.Lib WebHtop.Common

namespace MetricsCollector

/-! ## The loop -/

/-- The processes that the loop reaches before a stop is requested. -/
def reached (g : Generation) : Nat → List Int32 → List Int32
  | _, [] => []
  | i, pid :: pids => if g.stopRequested i then [] else pid :: reached g (i + 1) pids

/-- The processes whose records a generation looks at. -/
def visited (g : Generation) : List Int32 :=
  match g.source.pids with
  | .error _ => []
  | .ok pids => reached g 0 pids.val

def Visit.sample : Visit → Option ProcessSample
  | .sampled p => some p
  | _ => none

theorem Visit.sample_eq {v : Visit} {p : ProcessSample} : v.sample = some p ↔ v = .sampled p := by
  cases v <;> simp [sample]

def Visit.isMalformed : Visit → Bool
  | .malformed => true
  | _ => false

variable {D : Type} [Arithmetic D]

/-- The accepted records of these processes. -/
def samples (g : Generation) (c : MetricsCollector D) (pids : List Int32) :
    List (Int32 × ProcessSample) :=
  pids.filterMap fun pid => (visit g c pid).sample.map fun p => (pid, p)

def malformedCount (g : Generation) (c : MetricsCollector D) (pids : List Int32) : Nat :=
  pids.countP fun pid => (visit g c pid).isMalformed

/-- The baseline that accepted records leave. -/
def processBaseline (records : List (Int32 × ProcessSample)) (next : Table Int32 (UInt64 × UInt64)) :
    Table Int32 (UInt64 × UInt64) :=
  next.assignAll (records.map fun e => (e.1, (e.2.starttime, e.2.ticks)))

omit [Arithmetic D] in
theorem mem_samples {g : Generation} {c : MetricsCollector D} {pids : List Int32}
    {e : Int32 × ProcessSample} :
    e ∈ samples g c pids ↔ e.1 ∈ pids ∧ visit g c e.1 = .sampled e.2 := by
  obtain ⟨pid, p⟩ := e
  simp only [samples, List.mem_filterMap, Option.map_eq_some_iff, Visit.sample_eq, Prod.mk.injEq]
  constructor
  · rintro ⟨_, hmem, _, hv, rfl, rfl⟩
    exact ⟨hmem, hv⟩
  · rintro ⟨hmem, hv⟩
    exact ⟨pid, hmem, p, hv, rfl, rfl⟩

theorem reached_sublist (g : Generation) (i : Nat) (pids : List Int32) :
    (reached g i pids).Sublist pids := by
  induction pids generalizing i with
  | nil => exact List.nil_sublist _
  | cons pid pids ih =>
    rw [reached]
    split
    · exact List.nil_sublist _
    · exact (ih (i + 1)).cons_cons pid

/-- What the loop adds to its state. -/
theorem visitAll_spec (g : Generation) (c : MetricsCollector D) (totalBytes : UInt64) (i : Nat)
    (pids : List Int32) (l : ProcessLoop D) :
    let l' := visitAll g c totalBytes i pids l
    let records := samples g c (reached g i pids)
    l'.rows = l.rows ++ records.map (fun e => c.processRow totalBytes e.1 e.2) ∧
      l'.malformed = l.malformed + UInt64.ofNat (malformedCount g c (reached g i pids)) ∧
      l'.next = processBaseline records l.next := by
  induction pids generalizing i l with
  | nil => simp [visitAll, reached, samples, malformedCount, processBaseline]
  | cons pid pids ih =>
    rw [visitAll, reached]
    by_cases hstop : g.stopRequested i = true
    · simp [hstop, samples, malformedCount, processBaseline]
    · rw [if_neg hstop, if_neg hstop]
      obtain ⟨hrows, hmalformed, hnext⟩ := ih (i + 1) _
      dsimp only
      rw [hrows, hmalformed, hnext]
      cases hv : visit g c pid with
      | denied => simp [samples, malformedCount, hv, Visit.sample, Visit.isMalformed]
      | vanished => simp [samples, malformedCount, hv, Visit.sample, Visit.isMalformed]
      | malformed =>
        simp only [samples, malformedCount, hv, Visit.sample, Visit.isMalformed,
          List.filterMap_cons_none, List.countP_cons_of_pos, Option.map_none, UInt64.ofNat_add,
          true_and, and_true]
        rw [UInt64.add_assoc, UInt64.add_comm 1]
        rfl
      | sampled p =>
        simp [samples, malformedCount, hv, Visit.sample, Visit.isMalformed, processBaseline]

/-! ## The numbers of a row -/

open Binary64 (Is)

theorem nonnegative_is {d : Binary64} {q : ℚ} (h : Is d q) :
    Decode.nonnegative ((some d).filter Double.isFinite) = true := by
  have hfinite : Double.isFinite d = true := h.finite
  have hneg : Decode.negative d = false := by
    rw [← Bool.not_eq_true]
    exact fun hlt => absurd ((h.lt is_zero).mp hlt) (not_lt.mpr h.nonneg)
  simp only [Option.filter, hfinite, ↓reduceIte, Decode.nonnegative, Option.any_some, hneg,
    Bool.not_false]

theorem is_ofInt64 {i : Int64} (hi : 0 ≤ i.toInt) :
    Is (Double.ofInt64 i : Binary64) (nearest i.toInt.toNat) := by
  have hlt := i.toInt_lt
  have hnat : (i.toInt.toNat : ℤ) = i.toInt := Int.toNat_of_nonneg hi
  have := Binary64.is_ofNat (n := i.toInt.toNat) (by omega)
  rwa [hnat] at this

/-- The time base of a generation: nothing to divide by, or at least about a nanosecond. -/
def TimeBase (seconds : Binary64) : Prop :=
  Arithmetic.le seconds zero = true ∨ ∃ q, Is seconds q ∧ 2 ^ (-30 : ℤ) ≤ q

theorem elapsed_timeBase (now previous : TimePoint) : TimeBase (elapsed now previous) := by
  obtain ⟨now, hnow⟩ := now
  obtain ⟨previous, hprevious⟩ := previous
  have hint : (Int64.ofInt (now - previous)).toInt = now - previous :=
    Int64.toInt_ofInt_of_le (by omega) (by omega)
  have hbillion : Is (Arithmetic.ofInt 1000000000 : Binary64) 1000000000 :=
    Binary64.is_natCast (n := 1000000000) (by norm_num)
  rcases le_or_gt (now - previous) 0 with hle | hpos
  · left
    have hq : ((now - previous : ℤ) : ℚ) ≤ 0 := by exact_mod_cast hle
    have hsize : |((now - previous : ℤ) : ℚ)| ≤ 2 ^ (63 : ℤ) := by
      rw [abs_of_nonpos hq]
      have : ((-(now - previous) : ℤ) : ℚ) ≤ ((2 ^ 63 : ℤ) : ℚ) := by exact_mod_cast (by omega)
      norm_num at this ⊢
      linarith
    have hnear := nearest_le_two_zpow (abs_nonneg _) (by norm_num) hsize
    have hval : |(Binary64.ofInt (now - previous)).val / 1000000000| ≤ 2 ^ (63 : ℤ) := by
      rw [abs_div]
      exact (div_le_self (abs_nonneg _) (by norm_num)).trans (Binary64.abs_val_round.trans hnear)
    obtain ⟨hfinite, hnonpos⟩ := Binary64.div_nonpos
      (Binary64.round_finite (Binary64.nearest_lt_overflow (abs_nonneg _) (by norm_num) hsize (by norm_num)))
      (Binary64.round_nonpos hq) hbillion (by norm_num)
      (Binary64.nearest_lt_overflow (abs_nonneg _) (by norm_num) hval (by norm_num))
    have helapsed : (elapsed ⟨now, hnow⟩ ⟨previous, hprevious⟩ : Binary64) =
        Binary64.div (Binary64.ofInt (now - previous)) (Arithmetic.ofInt 1000000000) := by
      rw [← hint]
      rfl
    rw [helapsed]
    exact Binary64.le_of_nonpos hfinite hnonpos is_zero
  · right
    have hnat : ((now - previous).toNat : ℤ) = now - previous := Int.toNat_of_nonneg hpos.le
    have hdelta : Is (Double.ofInt64 (Int64.ofInt (now - previous)) : Binary64)
        (nearest (now - previous).toNat) := by
      have := is_ofInt64 (i := Int64.ofInt (now - previous)) (by omega)
      rwa [hint] at this
    have hone := one_le_nearest (n := (now - previous).toNat) (by omega)
    have hlarge : nearest ((now - previous).toNat : ℚ) ≤ 2 ^ (64 : ℤ) := by
      refine nearest_le_two_zpow (Nat.cast_nonneg _) (by norm_num) ?_
      have : (((now - previous).toNat : ℕ) : ℚ) ≤ ((2 ^ 64 : ℕ) : ℚ) := by
        exact_mod_cast (by omega)
      exact this.trans (by norm_num)
    have hquot : nearest ((now - previous).toNat : ℚ) / 1000000000 ≤ 2 ^ (64 : ℤ) :=
      (div_le_self (by linarith) (by norm_num)).trans hlarge
    refine ⟨_, hdelta.div hbillion (by norm_num)
      (Binary64.nearest_lt_overflow (by positivity) (by norm_num) hquot (by norm_num)), ?_⟩
    refine two_zpow_le_nearest (by norm_num) ?_
    rw [le_div_iff₀ (by norm_num)]
    refine le_trans ?_ hone
    norm_num

/-- A rate over a time base is a number that is not negative, and not too large to scale. -/
theorem counterRate_is {now previous : UInt64} {seconds rate : Binary64} (ht : TimeBase seconds)
    (h : counterRate now previous seconds = some rate) : ∃ x, Is rate x ∧ x ≤ 2 ^ (94 : ℤ) := by
  unfold counterRate at h
  split at h
  · cases h
  · rename_i hguard
    obtain rfl := Option.some.inj h
    rcases ht with hle | ⟨q, hq, hlow⟩
    · exact absurd (.inr (.inl hle)) hguard
    · have hq0 : 0 < q := (two_zpow_pos _).trans_le hlow
      have hdiff := nearest_toNat_le (now - previous)
      have hdiff0 : 0 ≤ nearest ((now - previous).toNat : ℚ) := nearest_nonneg (Nat.cast_nonneg _)
      have hquot : nearest ((now - previous).toNat : ℚ) / q ≤ 2 ^ (94 : ℤ) := by
        rw [div_le_iff₀ hq0]
        refine hdiff.trans ?_
        calc (2 : ℚ) ^ (64 : ℤ) = 2 ^ (94 : ℤ) * 2 ^ (-30 : ℤ) := by norm_num
          _ ≤ 2 ^ (94 : ℤ) * q := mul_le_mul_of_nonneg_left hlow (by positivity)
      have hquot0 : 0 ≤ nearest ((now - previous).toNat : ℚ) / q := div_nonneg hdiff0 hq0.le
      exact ⟨_, (is_ofUInt64 _).div hq hq0.ne'
        (Binary64.nearest_lt_overflow hquot0 (by norm_num) hquot (by norm_num)),
        nearest_le_two_zpow hquot0 (by norm_num) hquot⟩

/-- The published share of a process. -/
theorem processRate_is {c : MetricsCollector Binary64} (ht : TimeBase c.seconds) (pid : Int32)
    (p : ProcessSample) : ∃ q, Is ((c.processRate pid p).getD zero) q := by
  cases hr : c.processRate pid p with
  | none => exact ⟨0, is_zero⟩
  | some share =>
    simp only [processRate, Option.bind_eq_some_iff] at hr
    obtain ⟨old, -, hr⟩ := hr
    split at hr
    · obtain ⟨rate, hrate, rfl⟩ := Option.map_eq_some_iff.mp hr
      obtain ⟨x, hx, hlarge⟩ := counterRate_is ht hrate
      have hx0 := hx.nonneg
      have hprod : x * 100 ≤ 2 ^ (101 : ℤ) := by
        norm_num at hlarge ⊢
        linarith
      have hmul := hx.mul is_hundred
        (Binary64.nearest_lt_overflow (by positivity) (by norm_num) hprod (by norm_num))
      have hticks := is_ofInt64 c.ticks_pos.le
      have hone := one_le_nearest (n := c.clockTicks.toInt.toNat) (by have := c.ticks_pos; omega)
      have hprod0 : 0 ≤ nearest (x * 100) := nearest_nonneg (by positivity)
      have hquot : nearest (x * 100) / nearest c.clockTicks.toInt.toNat ≤ 2 ^ (101 : ℤ) :=
        (div_le_self hprod0 hone).trans (nearest_le_two_zpow (by positivity) (by norm_num) hprod)
      exact ⟨_, hmul.div hticks (by linarith) (Binary64.nearest_lt_overflow
        (div_nonneg hprod0 (by linarith)) (by norm_num) hquot (by norm_num))⟩
    · cases hr

/-! ## The row checks of Decode -/

theorem toInt8_nonneg (state : UInt8) : 0 ≤ state.toInt8.toInt ↔ state.toNat < 128 := by
  have hbits : state.toInt8.toInt = state.toBitVec.toInt := rfl
  have hlt := state.toNat_lt
  rw [hbits, BitVec.toInt_eq_toNat_cond]
  simp only [UInt8.toNat_toBitVec]
  split <;> omega

/-- Reading back an integer that is not negative. -/
theorem toNat_ofInt {i : Int} (h0 : 0 ≤ i) (h : i < 2 ^ 31) :
    (UInt64.ofNat i.toNat).toNat = i.toNat ∧ i.toNat ≤ 2 ^ 31 - 1 := by
  refine ⟨UInt64.toNat_ofNat_of_lt (by show i.toNat < 2 ^ 64; omega), by omega⟩

/-- A positive pid and two good percentages leave the state to decide. -/
theorem checkProcess_iff {row : ProcessInfo Binary64} {cpu memory : ℚ} (hpid : 0 < row.pid.toInt)
    (hcpu : Is row.cpuPercent cpu) (hmemory : Is row.memoryPercent memory) :
    Decode.checkProcess row.toJson = .ok () ↔ 0 ≤ row.state.toInt := by
  have h1 : Access.uint row.toJson (lit "pid") =
      (JSONValue.int64 row.pid.toInt64 : JSONValue Binary64).asUInt64 := rfl
  have h2 : Access.uint row.toJson (lit "thread_count") = some row.threadCount.toUInt64 := rfl
  have h3 : Access.number row.toJson (lit "cpu_percent") =
      (some row.cpuPercent).filter Double.isFinite := rfl
  have h4 : Access.number row.toJson (lit "memory_percent") =
      (some row.memoryPercent).filter Double.isFinite := rfl
  have h5 : (row.toJson.field (lit "name")).any JSONValue.isString = true := rfl
  have h6 : Access.uint row.toJson (lit "state") =
      (JSONValue.int64 row.state.toInt64 : JSONValue Binary64).asUInt64 := rfl
  have h7 : (Access.uint row.toJson (lit "memory_bytes")).isSome = true := rfl
  have h8 : (Access.uint row.toJson (lit "starttime_ticks")).isSome = true := rfl
  obtain ⟨hvalue, hlarge⟩ := toNat_ofInt hpid.le row.pid.toInt_lt
  have hpos : UInt64.ofNat row.pid.toInt.toNat ≠ 0 := by
    intro h0
    rw [h0, UInt64.toNat_zero] at hvalue
    omega
  have hthreads : row.threadCount.toUInt64.toNat ≤ 2 ^ 32 - 1 := by
    have := row.threadCount.toNat_lt
    rw [UInt32.toNat_toUInt64]
    omega
  rw [Decode.checkProcess, Decode.require_ok]
  simp only [h1, h2, h3, h4, h5, h6, h7, h8, nonnegative_is hcpu, nonnegative_is hmemory,
    JSONValue.asUInt64, Int32.toInt_toInt64, Int8.toInt_toInt64, hpid.le, ↓reduceIte,
    Option.any_some, hvalue, hlarge, hpos, hthreads, ne_eq, not_false_eq_true, and_self,
    decide_true, true_and, and_true, decide_eq_true_eq]
  constructor
  · intro h
    by_contra hneg
    rw [if_neg hneg] at h
    cases h
  · intro h
    have hlt := Int8.toInt_lt row.state
    obtain ⟨hstate, -⟩ := toNat_ofInt h (by omega)
    rw [if_pos h, Option.any_some, hstate, decide_eq_true_eq]
    omega

/-! ## What the parser accepts -/

theorem parseSigned_lt {bits : Nat} {t : Bytes} {n : Int} (h : parseSigned bits t = some n) :
    n < 2 ^ (bits - 1) := by
  have hpos : (0 : Int) < 2 ^ (bits - 1) := by positivity
  unfold parseSigned at h
  split at h
  · split at h
    · obtain rfl := Option.some.inj h
      omega
    · cases h
  · obtain ⟨m, hm, rfl⟩ := Option.map_eq_some_iff.mp h
    unfold parseUnsigned at hm
    split at hm
    · rename_i hguard
      obtain rfl := Option.some.inj hm
      exact_mod_cast hguard.2.2
    · cases hm

theorem processFields_pid {pid : Int} {name : Bytes} {tokens : List Bytes} {p : ProcessSample}
    (h : processFields pid name tokens = some p) : p.pid = Int32.ofInt pid := by
  unfold processFields at h
  dsimp only at h
  split at h
  · cases h
  · simp only [Option.bind_eq_bind, Option.bind_eq_some_iff] at h
    obtain ⟨_, -, _, -, _, -, _, -, _, -, h⟩ := h
    split at h
    · cases h
    · exact Option.some.inj h ▸ rfl

theorem parseProcess_pid {text : Bytes} {p : ProcessSample} (h : parseProcess text = some p) :
    0 < p.pid.toInt := by
  unfold parseProcess at h
  simp only [Option.bind_eq_bind, Option.bind_eq_some_iff] at h
  obtain ⟨opening, -, closing, -, h⟩ := h
  split at h
  · cases h
  · obtain ⟨pid, hpid, h⟩ := Option.bind_eq_some_iff.mp h
    split at h
    · cases h
    · rename_i hpos
      obtain ⟨tokens, -, h⟩ := Option.bind_eq_some_iff.mp h
      have hlt := parseSigned_lt hpid
      rw [processFields_pid h, Int32.toInt_ofInt_of_le (by omega) (by omega)]
      omega

theorem visit_sampled {g : Generation} {c : MetricsCollector Binary64} {pid : Int32}
    {p : ProcessSample} (h : visit g c pid = .sampled p) : 0 < pid.toInt := by
  unfold visit at h
  split at h
  · split at h
    · cases h
    · split at h <;> cases h
  · split at h
    · cases h
    · rename_i hparse
      split at h
      · cases h
      · rename_i hguard
        rw [not_or, not_not] at hguard
        obtain rfl := Visit.sampled.inj h
        exact hguard.1 ▸ parseProcess_pid hparse

/-- The row of an accepted record passes if and only if its state is ASCII. -/
theorem processRow_passes {g : Generation} {c : MetricsCollector Binary64} {pid : Int32}
    {p : ProcessSample} (ht : TimeBase c.seconds) (h : visit g c pid = .sampled p)
    (totalBytes : UInt64) :
    Decode.checkProcess (c.processRow totalBytes pid p).toJson = .ok () ↔ p.state.toNat < 128 := by
  have hpid : 0 < (c.processRow totalBytes pid p).pid.toInt := visit_sampled h
  have hcpu : ∃ q, Is (c.processRow totalBytes pid p).cpuPercent q := processRate_is ht pid p
  have hmemory : ∃ q, Is (c.processRow totalBytes pid p).memoryPercent q := by
    have hrow : (c.processRow totalBytes pid p).memoryPercent =
        if totalBytes ≠ 0 then percent (p.rssPages * c.pageSize.toUInt64) totalBytes else zero := rfl
    rw [hrow]
    by_cases h0 : totalBytes = 0
    · rw [if_neg (not_not.mpr h0)]
      exact ⟨0, is_zero⟩
    · rw [if_pos h0]
      exact ⟨_, percent_is _ (Nat.pos_of_ne_zero fun hz => h0 (UInt64.toNat_inj.mp hz))⟩
  obtain ⟨cpu, hcpu⟩ := hcpu
  obtain ⟨memory, hmemory⟩ := hmemory
  have hstate : (c.processRow totalBytes pid p).state = p.state.toInt8 := rfl
  rw [checkProcess_iff hpid hcpu hmemory, hstate, toInt8_nonneg]

/-! ## A generation -/

/-- A record that cannot be published: it is not a record of the process, or its row would
not pass. -/
def refused (g : Generation) (c : MetricsCollector Binary64) (totalBytes : UInt64) (pid : Int32) :
    Bool :=
  match visit g c pid with
  | .denied => false
  | .vanished => false
  | .malformed => true
  | .sampled p => !(Decode.checkProcess (c.processRow totalBytes pid p).toJson).isOk

/-- No record poisons the generation: every row that is published passes the row checks, and
the records that cannot be published are counted. -/
structure RowsPass (c : MetricsCollector Binary64) (g : Generation) (s : SystemSnapshot Binary64) :
    Prop where
  rows : ∀ row ∈ s.process.processes, Decode.checkProcess row.toJson = .ok ()
  counted : s.telemetry.processMalformed = UInt64.ofNat
    ((visited g).countP (refused g (c.timed g) s.memory.totalBytes))

theorem timed_timeBase (c : MetricsCollector Binary64) (g : Generation) :
    TimeBase (c.timed g).seconds := by
  cases hp : c.previousTime with
  | none =>
    have : (c.timed g).seconds = zero := by simp [timed, hp]
    rw [this]
    exact .inl (Binary64.le_of_nonpos is_zero.finite is_zero.val.le is_zero)
  | some previous =>
    have : (c.timed g).seconds = elapsed g.now previous := by simp [timed, hp]
    rw [this]
    exact elapsed_timeBase g.now previous

theorem mem_firstRows {count : Nat} {rows : List (ProcessInfo D)} {row : ProcessInfo D}
    (h : row ∈ firstRows count rows) : row ∈ rows := by
  exact List.mem_mergeSort.mp (List.mem_of_mem_take h)

theorem isOk_iff {x : Except Bytes Unit} : x.isOk = true ↔ x = .ok () := by
  cases x <;> simp [Except.isOk, Except.toBool]

/-- What cannot be published is what is counted, and the accepted records whose state is not
ASCII. -/
theorem refused_iff {g : Generation} {c : MetricsCollector Binary64} (ht : TimeBase c.seconds)
    (totalBytes : UInt64) (pid : Int32) :
    refused g c totalBytes pid = true ↔ (visit g c pid).isMalformed = true ∨
      ∃ p, visit g c pid = .sampled p ∧ ¬ p.state.toNat < 128 := by
  unfold refused
  cases hv : visit g c pid with
  | denied => simp [Visit.isMalformed]
  | vanished => simp [Visit.isMalformed]
  | malformed => simp [Visit.isMalformed]
  | sampled p =>
    have hpass := processRow_passes ht hv totalBytes
    rw [← isOk_iff, ← not_iff_not, Bool.not_eq_true] at hpass
    simpa [Visit.isMalformed] using hpass

theorem visited_length (g : Generation) : (visited g).length < 2 ^ 61 := by
  unfold visited
  split
  · decide
  · rename_i pids _
    exact (reached_sublist g 0 pids.val).length_le.trans_lt pids.property

/-- What the section publishes of the loop. -/
theorem processes_spec (g : Generation) (c : MetricsCollector D) (totalBytes : UInt64) :
    (c.processes g totalBytes).1.value.malformed = UInt64.ofNat (malformedCount g c (visited g)) ∧
      ∀ row ∈ (c.processes g totalBytes).1.value.process.processes,
        ∃ e ∈ samples g c (visited g), row = c.processRow totalBytes e.1 e.2 := by
  unfold processes visited
  cases g.source.pids with
  | error e => exact ⟨rfl, fun _ h => absurd h List.not_mem_nil⟩
  | ok pids =>
    obtain ⟨hrows, hmalformed, -⟩ := visitAll_spec g c totalBytes 0 pids.val {}
    dsimp only at hrows hmalformed ⊢
    refine ⟨by rw [hmalformed, UInt64.zero_add], fun row h => ?_⟩
    have hmem := mem_firstRows h
    rw [hrows, List.nil_append] at hmem
    obtain ⟨e, he, rfl⟩ := List.mem_map.mp hmem
    exact ⟨e, he, rfl⟩

theorem countP_lt {p q : Int32 → Bool} {pids : List Int32} (h : ∀ pid, p pid = true → q pid = true)
    {pid : Int32} (hmem : pid ∈ pids) (hp : p pid = false) (hq : q pid = true) :
    pids.countP p < pids.countP q := by
  induction pids with
  | nil => cases hmem
  | cons pid' pids ih =>
    have hle := List.countP_mono_left (l := pids) fun pid _ => h pid
    rw [List.countP_cons, List.countP_cons]
    rcases List.mem_cons.mp hmem with rfl | hmem
    · simp only [hp, hq, Bool.false_eq_true, ↓reduceIte]
      omega
    · have := ih hmem
      by_cases hp' : p pid' = true
      · rw [if_pos hp', if_pos (h pid' hp')]
        omega
      · rw [if_neg hp']
        omega

/-- An accepted record whose state is not ASCII is neither sound nor counted. -/
theorem ascii_of_rowsPass {c : MetricsCollector Binary64} {g : Generation}
    (h : RowsPass c g (c.collect g).1) {pid : Int32} (hmem : pid ∈ visited g) {p : ProcessSample}
    (hv : visit g c pid = .sampled p) : p.state.toNat < 128 := by
  have ht := timed_timeBase c g
  have hmalformed := (processes_spec g (c.timed g) (c.collect g).1.memory.totalBytes).1
  have hbound : ∀ p : Int32 → Bool, (visited g).countP p < 2 ^ 64 := fun p =>
    (List.countP_le_length.trans_lt (visited_length g)).trans (by norm_num)
  by_contra hstate
  have heq : malformedCount g (c.timed g) (visited g) =
      (visited g).countP (refused g (c.timed g) (c.collect g).1.memory.totalBytes) := by
    have := congrArg UInt64.toNat (hmalformed.symm.trans h.counted)
    rw [UInt64.toNat_ofNat', UInt64.toNat_ofNat', Nat.mod_eq_of_lt (hbound _)] at this
    exact (Nat.mod_eq_of_lt (hbound _)).symm.trans this
  have hsampled : (visit g (c.timed g) pid).isMalformed = false := by
    rw [show visit g (c.timed g) pid = .sampled p from hv]
    rfl
  have hlt := countP_lt (fun pid hm => (refused_iff ht _ pid).mpr (.inl hm)) hmem hsampled
    ((refused_iff ht (c.collect g).1.memory.totalBytes pid).mpr (.inr ⟨p, hv, hstate⟩))
  exact absurd heq hlt.ne

/-- No record poisons a generation if and only if every accepted record among those that are
reached has an ASCII state. -/
theorem rows_pass (c : MetricsCollector Binary64) (g : Generation) :
    RowsPass c g (c.collect g).1 ↔
      ∀ pid ∈ visited g, ∀ p, visit g c pid = .sampled p → p.state.toNat < 128 := by
  constructor
  · exact fun h pid hmem p hv => ascii_of_rowsPass h hmem hv
  · intro h
    have ht := timed_timeBase c g
    obtain ⟨hmalformed, hrows⟩ := processes_spec g (c.timed g) (c.collect g).1.memory.totalBytes
    refine ⟨fun row hrow => ?_, hmalformed.trans (congrArg UInt64.ofNat ?_)⟩
    · obtain ⟨e, he, rfl⟩ := hrows row hrow
      obtain ⟨hmem, hv⟩ := mem_samples.mp he
      exact (processRow_passes ht hv _).mpr (h e.1 hmem e.2 hv)
    · refine List.countP_congr fun pid hmem => ?_
      rw [refused_iff ht]
      constructor
      · exact .inl
      · rintro (hm | ⟨p, hv, hstate⟩)
        · exact hm
        · exact absurd (h pid hmem p hv) hstate

/-- A process whose stat file has the byte 0xC3 for its state. -/
def foreignState : Generation :=
  { source :=
      { proc := fun path =>
          if path = lit "1/stat" then
            .ok (lit "1 (a) " ++ [0xC3] ++ lit " 0 0 0 0 0 0 0 0 0 0 0 0 0 0 0 0 1 0 0 0 0")
          else .error 2
        sys := fun _ => .error 2
        cgroup := fun _ => .error 2
        pids := .ok ⟨[1], by decide⟩
        filesystem := .error 5
        cgroupIdentity := []
        message := fun _ => [] }
    now := epoch }

theorem rows_not_pass : ¬ RowsPass fresh foreignState (fresh.collect foreignState).1 := by
  intro h
  have hv : visit foreignState fresh 1 = .sampled
      { pid := 1, name := lit "a", state := 0xC3, ticks := 0, starttime := 0, rssPages := 0
        threads := 1 } := rfl
  have hmem : (1 : Int32) ∈ visited foreignState := List.mem_singleton.mpr rfl
  exact absurd (ascii_of_rowsPass h hmem hv) (by decide)

end MetricsCollector
end WebHtop.Server.Collectors
