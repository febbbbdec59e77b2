import WebHtop.Server.Collectors.Rates

/-!
# The accounting of a process generation

Every listed process is counted once, by what became of its record, and the published rows are
the best of all sampled ones. The order of the rows is total once the pids differ, so nothing
of this depends on the order in which the directory lists them. Arithmetic is exact here.
-/

namespace WebHtop.Server.Collectors.MetricsCollector

open WebHtop.Lib WebHtop.Common

/-! ## The counts -/

section

variable {D : Type} [Arithmetic D]

def Visit.isDenied : Visit → Bool
  | .denied => true
  | _ => false

def Visit.isVanished : Visit → Bool
  | .vanished => true
  | _ => false

def Visit.isRunning : Visit → Bool
  | .sampled p => decide (p.state = ch 'R')
  | _ => false

/-- How many of the processes come out that way. -/
def tally (g : Generation) (c : MetricsCollector D) (outcome : Visit → Bool) (pids : List Int32) : Nat :=
  pids.countP fun pid => outcome (visit g c pid)

theorem reached_all {g : Generation} (hstop : ∀ i, g.stopRequested i = false) (i : Nat)
    (pids : List Int32) : reached g i pids = pids := by
  induction pids generalizing i with
  | nil => rfl
  | cons pid pids ih => rw [reached, hstop, if_neg Bool.false_ne_true, ih]

omit [Arithmetic D] in
theorem tally_cons (g : Generation) (c : MetricsCollector D) (outcome : Visit → Bool) (pid : Int32)
    (pids : List Int32) :
    tally g c outcome (pid :: pids) =
      tally g c outcome pids + if outcome (visit g c pid) then 1 else 0 :=
  List.countP_cons

omit [Arithmetic D] in
theorem samples_cons (g : Generation) (c : MetricsCollector D) (pid : Int32) (pids : List Int32) :
    samples g c (pid :: pids) =
      ((visit g c pid).sample.map fun p => (pid, p)).toList ++ samples g c pids := by
  unfold samples
  rw [List.filterMap_cons]
  cases (visit g c pid).sample with
  | none => rfl
  | some p => rfl

/-- A counter that goes up with an element of the list. -/
theorem count_step (x : UInt64) (n : Nat) (p : Bool) :
    (if p then x + 1 else x) + UInt64.ofNat n = x + UInt64.ofNat (n + if p then 1 else 0) := by
  cases p with
  | false => rfl
  | true =>
    simp only [↓reduceIte]
    rw [UInt64.ofNat_add, UInt64.add_assoc, UInt64.add_comm 1]
    rfl

theorem visitAll_counts {g : Generation} (hstop : ∀ i, g.stopRequested i = false)
    (c : MetricsCollector D) (totalBytes : UInt64) (i : Nat) (pids : List Int32) (l : ProcessLoop D) :
    let l' := visitAll g c totalBytes i pids l
    l'.denied = l.denied + UInt64.ofNat (tally g c Visit.isDenied pids) ∧
      l'.vanished = l.vanished + UInt64.ofNat (tally g c Visit.isVanished pids) ∧
      l'.total = l.total + UInt64.ofNat (samples g c pids).length ∧
      l'.running = l.running + UInt64.ofNat (tally g c Visit.isRunning pids) ∧
      l'.stopped = l.stopped := by
  induction pids generalizing i l with
  | nil => simp [visitAll, tally, samples]
  | cons pid pids ih =>
    rw [visitAll, hstop, if_neg Bool.false_ne_true]
    obtain ⟨hdenied, hvanished, htotal, hrunning, hstopped⟩ := ih (i + 1) _
    dsimp only
    rw [hdenied, hvanished, htotal, hrunning, hstopped, tally_cons, tally_cons, tally_cons, samples_cons,
      List.length_append, Nat.add_comm _ (samples g c pids).length]
    simp only [← count_step]
    cases hv : visit g c pid with
    | denied => simp [Visit.isDenied, Visit.isVanished, Visit.isRunning, Visit.sample]
    | vanished => simp [Visit.isDenied, Visit.isVanished, Visit.isRunning, Visit.sample]
    | malformed => simp [Visit.isDenied, Visit.isVanished, Visit.isRunning, Visit.sample]
    | sampled p =>
      have htotal := count_step l.total (samples g c pids).length true
      simp only [↓reduceIte] at htotal
      simp [Visit.isDenied, Visit.isVanished, Visit.isRunning, Visit.sample, htotal]

omit [Arithmetic D] in
/-- Every process is counted once. -/
theorem tally_partition (g : Generation) (c : MetricsCollector D) (pids : List Int32) :
    tally g c Visit.isDenied pids + tally g c Visit.isVanished pids + malformedCount g c pids +
      (samples g c pids).length = pids.length := by
  induction pids with
  | nil => rfl
  | cons pid pids ih =>
    have hmalformed : malformedCount g c (pid :: pids) =
        malformedCount g c pids + if (visit g c pid).isMalformed then 1 else 0 := List.countP_cons
    rw [tally_cons, tally_cons, hmalformed, samples_cons, List.length_append, List.length_cons, ← ih]
    cases visit g c pid with
    | denied => simp [Visit.isDenied, Visit.isVanished, Visit.isMalformed, Visit.sample]; omega
    | vanished => simp [Visit.isDenied, Visit.isVanished, Visit.isMalformed, Visit.sample]; omega
    | malformed => simp [Visit.isDenied, Visit.isVanished, Visit.isMalformed, Visit.sample]; omega
    | sampled p => simp [Visit.isDenied, Visit.isVanished, Visit.isMalformed, Visit.sample]; omega

end

/-! ## The order of the rows -/

/-- CPU share descending, then memory descending, then pid ascending. -/
def Before (a b : ProcessInfo ℚ) : Prop :=
  b.cpuPercent < a.cpuPercent ∨ a.cpuPercent = b.cpuPercent ∧
    (b.memoryBytes < a.memoryBytes ∨ a.memoryBytes = b.memoryBytes ∧ a.pid.toInt < b.pid.toInt)

theorem better_iff (a b : ProcessInfo ℚ) : better a b = true ↔ Before a b := by
  have hne : Arithmetic.ne a.cpuPercent b.cpuPercent = true ↔ a.cpuPercent ≠ b.cpuPercent := by
    have hle : ∀ x y : ℚ, Arithmetic.le x y = decide (x ≤ y) := fun _ _ => rfl
    simp only [Arithmetic.ne, hle, Bool.not_eq_true', Bool.and_eq_false_iff, decide_eq_false_iff_not]
    rw [← not_and_or, ← le_antisymm_iff]
  have hlt : Double.lt b.cpuPercent a.cpuPercent = decide (b.cpuPercent < a.cpuPercent) := rfl
  unfold better Before
  rw [hlt]
  by_cases hcpu : a.cpuPercent = b.cpuPercent
  · rw [if_neg (by rw [hne]; exact not_not.mpr hcpu)]
    by_cases hbytes : a.memoryBytes = b.memoryBytes
    · simp [hcpu, hbytes]
    · simp [hcpu, hbytes]
  · rw [if_pos (hne.mpr hcpu)]
    simp [hcpu]

theorem Before.trans {a b d : ProcessInfo ℚ} (h : Before a b) (h' : Before b d) : Before a d := by
  unfold Before at h h' ⊢
  rcases h with h | ⟨h, hb⟩
  · rcases h' with h' | ⟨h', -⟩
    · exact .inl (h'.trans h)
    · exact .inl (h' ▸ h)
  · rcases h' with h' | ⟨h', hb'⟩
    · exact .inl (h ▸ h')
    · refine .inr ⟨h.trans h', ?_⟩
      rcases hb with hb | ⟨hb, hp⟩
      · rcases hb' with hb' | ⟨hb', -⟩
        · exact .inl (UInt64.lt_trans hb' hb)
        · exact .inl (hb' ▸ hb)
      · rcases hb' with hb' | ⟨hb', hp'⟩
        · exact .inl (hb ▸ hb')
        · exact .inr ⟨hb.trans hb', hp.trans hp'⟩

theorem Before.irrefl (a : ProcessInfo ℚ) : ¬ Before a a := by
  unfold Before
  simp

/-- Rows of different processes are always in an order. -/
theorem Before.total {a b : ProcessInfo ℚ} (h : a.pid ≠ b.pid) : Before a b ∨ Before b a := by
  have hpid : a.pid.toInt ≠ b.pid.toInt := fun he => h (Int32.toInt_inj.mp he)
  unfold Before
  rcases lt_trichotomy a.cpuPercent b.cpuPercent with hcpu | hcpu | hcpu
  · exact .inr (.inl hcpu)
  · rcases lt_trichotomy a.memoryBytes.toNat b.memoryBytes.toNat with hbytes | hbytes | hbytes
    · exact .inr (.inr ⟨hcpu.symm, .inl (UInt64.lt_iff_toNat_lt.mpr hbytes)⟩)
    · replace hbytes := UInt64.toNat_inj.mp hbytes
      rcases lt_or_gt_of_ne hpid with hlt | hgt
      · exact .inl (.inr ⟨hcpu, .inr ⟨hbytes, hlt⟩⟩)
      · exact .inr (.inr ⟨hcpu.symm, .inr ⟨hbytes.symm, hgt⟩⟩)
    · exact .inl (.inr ⟨hcpu, .inl (UInt64.lt_iff_toNat_lt.mpr hbytes)⟩)
  · exact .inl (.inl hcpu)

/-- The rows in the published order. -/
def ranking (rows : List (ProcessInfo ℚ)) : List (ProcessInfo ℚ) :=
  rows.mergeSort fun a b => !better b a

theorem ranking_perm (rows : List (ProcessInfo ℚ)) : (ranking rows).Perm rows :=
  List.mergeSort_perm rows _

theorem ranking_sorted {rows : List (ProcessInfo ℚ)} (hn : (rows.map ProcessInfo.pid).Nodup) :
    (ranking rows).Pairwise Before := by
  have hle : ∀ a b : ProcessInfo ℚ, (!better b a) = true ↔ ¬ Before b a := by
    intro a b
    rw [Bool.not_eq_true', ← Bool.not_eq_true, better_iff]
  -- Rows of one process are equivalent to the comparison, so transitivity needs the whole order.
  have htrans : ∀ a b d : ProcessInfo ℚ, (!better b a) = true → (!better d b) = true →
      (!better d a) = true := by
    intro a b d hab hbd
    rw [hle] at hab hbd ⊢
    intro hda
    by_cases hpid : b.pid = a.pid
    · by_cases hpid' : d.pid = b.pid
      · unfold Before at hab hbd hda
        rw [hpid'.trans hpid] at hda
        rw [hpid] at hab
        rw [hpid'] at hbd
        grind
      · exact hbd ((Before.total hpid').resolve_right fun h => hab (h.trans hda))
    · exact hbd (hda.trans ((Before.total hpid).resolve_left hab))
  have htotal : ∀ a b : ProcessInfo ℚ, ((!better b a) || !better a b) = true := by
    intro a b
    rw [Bool.or_eq_true, hle, hle, ← not_and_or]
    exact fun h => Before.irrefl b (h.1.trans h.2)
  have hsorted := List.pairwise_mergeSort htrans htotal rows
  have hpids : ((ranking rows).map ProcessInfo.pid).Nodup :=
    ((ranking_perm rows).map _).nodup_iff.mpr hn
  rw [List.Nodup, List.pairwise_map] at hpids
  refine (hsorted.and hpids).imp ?_
  rintro a b ⟨hab, hne⟩
  exact (Before.total hne).resolve_right ((hle a b).mp hab)

/-- The ranking does not depend on the order of the rows. -/
theorem ranking_congr {rows rows' : List (ProcessInfo ℚ)} (h : rows'.Perm rows)
    (hn : (rows.map ProcessInfo.pid).Nodup) : ranking rows' = ranking rows := by
  have hn' : (rows'.map ProcessInfo.pid).Nodup := (h.map _).nodup_iff.mpr hn
  refine List.Perm.eq_of_pairwise (fun a b _ _ hab hba => absurd (hab.trans hba) (Before.irrefl a))
    (ranking_sorted hn') (ranking_sorted hn) ?_
  exact (ranking_perm rows').trans (h.trans (ranking_perm rows).symm)

/-! ## The section -/

/-- A generation that may list its processes in another order. -/
def listing (g : Generation) (pids : Pids) : Generation :=
  { g with source := { g.source with pids := .ok pids } }

/-- The rows of all sampled processes. -/
def sampledRows (c : MetricsCollector ℚ) (g : Generation) (totalBytes : UInt64) (pids : List Int32) :
    List (ProcessInfo ℚ) :=
  (samples g c pids).map fun e => c.processRow totalBytes e.1 e.2

theorem sampledRows_pids (c : MetricsCollector ℚ) (g : Generation) (totalBytes : UInt64)
    (pids : List Int32) :
    (sampledRows c g totalBytes pids).map ProcessInfo.pid = (samples g c pids).map Prod.fst := by
  rw [sampledRows, List.map_map]
  rfl

/-- What the section makes of a list of processes. -/
theorem processes_outcome {g : Generation} (hstop : ∀ i, g.stopRequested i = false)
    (c : MetricsCollector ℚ) (totalBytes : UInt64) {pids : Pids} (hpids : g.source.pids = .ok pids) :
    (c.processes g totalBytes).1 =
      { value :=
          { process :=
              { timestamp := g.timestamp
                totalProcesses := UInt64.ofNat (samples g c pids.val).length
                runningProcesses := UInt64.ofNat (tally g c Visit.isRunning pids.val)
                processes := (ranking (sampledRows c g totalBytes pids.val)).take
                  (min c.config.maxProcesses (samples g c pids.val).length) }
            denied := UInt64.ofNat (tally g c Visit.isDenied pids.val)
            vanished := UInt64.ofNat (tally g c Visit.isVanished pids.val)
            malformed := UInt64.ofNat (malformedCount g c pids.val)
            truncated := decide (min c.config.maxProcesses (samples g c pids.val).length <
              (samples g c pids.val).length) }
        state :=
          if UInt64.ofNat (tally g c Visit.isDenied pids.val) ≠ 0 ∨
              UInt64.ofNat (malformedCount g c pids.val) ≠ 0 then lit "partial"
          else lit "ok" } := by
  obtain ⟨hrows, hmalformed, -⟩ := visitAll_spec g c totalBytes 0 pids.val {}
  obtain ⟨hdenied, hvanished, htotal, hrunning, hstopped⟩ :=
    visitAll_counts hstop c totalBytes 0 pids.val {}
  dsimp only at hrows hmalformed hdenied hvanished htotal hrunning hstopped
  rw [reached_all hstop] at hrows hmalformed
  rw [List.nil_append] at hrows
  unfold processes
  rw [hpids]
  dsimp only
  rw [hrows, hmalformed, hdenied, hvanished, htotal, hrunning, hstopped, List.length_map]
  simp only [UInt64.zero_add, Bool.false_eq_true, false_or]
  rfl

/-- The section of a generation that lists these processes. -/
structure ProcessesAccounted (c : MetricsCollector ℚ) (g : Generation) (pids : List Int32)
    (s : SystemSnapshot ℚ) (c' : MetricsCollector ℚ) : Prop where
  counted : s.telemetry.processDenied.toNat + s.telemetry.processVanished.toNat +
    s.telemetry.processMalformed.toNat + s.process.totalProcesses.toNat = pids.length
  total : s.process.totalProcesses.toNat = (samples g c pids).length
  published : ∃ rows : List (ProcessInfo ℚ), rows.Perm (sampledRows (c.timed g) g s.memory.totalBytes pids) ∧
    rows.Pairwise Before ∧
    s.process.processes = rows.take (min c.config.maxProcesses s.process.totalProcesses.toNat)
  truncated : s.telemetry.processesTruncated = true ↔
    s.process.processes.length < s.process.totalProcesses.toNat
  baseline : ∀ pid v, c'.processesPrevious.get pid = some v ↔
    ∃ p, (pid, p) ∈ samples g c pids ∧ v = (p.starttime, p.ticks)
  bytes : ∀ e ∈ samples g c pids, ((c.timed g).processRow s.memory.totalBytes e.1 e.2).memoryBytes.toNat =
    e.2.rssPages.toNat * c.pageSize.toInt.toNat

/-- The memory of an accepted record fits. -/
theorem memoryBytes_exact {g : Generation} {c : MetricsCollector ℚ} {pid : Int32} {p : ProcessSample}
    (h : visit g c pid = .sampled p) :
    (p.rssPages * c.pageSize.toUInt64).toNat = p.rssPages.toNat * c.pageSize.toInt.toNat := by
  have hpage := c.page_pos
  have hlt := c.pageSize.toInt_lt
  have hsize : c.pageSize.toUInt64.toNat = c.pageSize.toInt.toNat := by
    have hint : c.pageSize.toInt = c.pageSize.toBitVec.toInt := rfl
    have hnat : c.pageSize.toUInt64.toNat = c.pageSize.toBitVec.toNat := rfl
    rw [hint, BitVec.toInt_eq_toNat_cond] at hpage ⊢
    rw [hnat]
    split at hpage <;> omega
  unfold visit at h
  split at h
  · split_ifs at h
  · split at h
    · cases h
    · split at h
      · cases h
      · rename_i hguard
        obtain rfl := Visit.sampled.inj h
        rw [not_or, not_lt, Nat.le_div_iff_mul_le (by omega)] at hguard
        rw [UInt64.toNat_mul, hsize, Nat.mod_eq_of_lt (by omega)]

theorem samples_nodup {g : Generation} {c : MetricsCollector ℚ} {pids : List Int32} (hn : pids.Nodup) :
    ((samples g c pids).map Prod.fst).Nodup :=
  hn.sublist (samples_sublist g c pids)

theorem processes_accounted {g : Generation} (hstop : ∀ i, g.stopRequested i = false)
    (c : MetricsCollector ℚ) {pids : Pids} (hpids : g.source.pids = .ok pids) (hn : pids.val.Nodup) :
    ProcessesAccounted c g pids.val (c.collect g).1 (c.collect g).2 := by
  have houtcome := processes_outcome hstop (c.timed g) (memory (D := ℚ) g).value.totalBytes hpids
  have hnext := processes_next g (c.timed g) (memory (D := ℚ) g).value.totalBytes
  -- The time base has no part in what becomes of a record.
  have hsamples : samples g (c.timed g) pids.val = samples g c pids.val := rfl
  have htally : ∀ outcome, tally g (c.timed g) outcome pids.val = tally g c outcome pids.val :=
    fun _ => rfl
  have hmalformed : malformedCount g (c.timed g) pids.val = malformedCount g c pids.val := rfl
  rw [hsamples, htally, htally, hmalformed] at houtcome
  have hvisited : visited g = pids.val := by
    rw [visited, hpids]
    exact reached_all hstop 0 pids.val
  have hpartition := tally_partition g c pids.val
  have hlength := pids.property
  have hrowsLength : (sampledRows (c.timed g) g (c.collect g).1.memory.totalBytes pids.val).length =
      (samples g c pids.val).length := List.length_map _
  have hdistinct : ((sampledRows (c.timed g) g (memory (D := ℚ) g).value.totalBytes pids.val).map
      ProcessInfo.pid).Nodup := by
    rw [sampledRows_pids]
    exact samples_nodup hn
  have hrows := ranking_sorted hdistinct
  have hcount : ∀ n ≤ pids.val.length, (UInt64.ofNat n).toNat = n := fun n hle =>
    UInt64.toNat_ofNat_of_lt (by show n < 2 ^ 64; omega)
  have htotal : (c.collect g).1.process.totalProcesses.toNat = (samples g c pids.val).length := by
    show ((c.timed g).processes g _).1.value.process.totalProcesses.toNat = _
    rw [houtcome]
    exact hcount _ (by omega)
  have hpublished : (c.collect g).1.process.processes =
      (ranking (sampledRows (c.timed g) g (c.collect g).1.memory.totalBytes pids.val)).take
        (min c.config.maxProcesses (samples g c pids.val).length) := by
    show ((c.timed g).processes g _).1.value.process.processes = _
    rw [houtcome]
    rfl
  constructor
  · show ((c.timed g).processes g _).1.value.denied.toNat + ((c.timed g).processes g _).1.value.vanished.toNat +
      ((c.timed g).processes g _).1.value.malformed.toNat + _ = _
    rw [houtcome, htotal]
    show (UInt64.ofNat (tally g c Visit.isDenied pids.val)).toNat +
      (UInt64.ofNat (tally g c Visit.isVanished pids.val)).toNat +
      (UInt64.ofNat (malformedCount g c pids.val)).toNat + _ = _
    rw [hcount _ (by omega), hcount _ (by omega), hcount _ (by omega), hpartition]
  · exact htotal
  · exact ⟨_, ranking_perm _, hrows, by rw [hpublished, htotal]⟩
  · show ((c.timed g).processes g _).1.value.truncated = true ↔ _
    rw [houtcome, hpublished, htotal, List.length_take, (ranking_perm _).length_eq, hrowsLength]
    show decide (min c.config.maxProcesses _ < _) = true ↔ _
    rw [decide_eq_true_eq]
    omega
  · intro pid v
    show ((c.timed g).processes g _).2.get pid = some v ↔ _
    rw [hnext, hvisited, hsamples, processBaseline, Table.get_assignAll_nil (by simpa [Function.comp_def] using samples_nodup hn)]
    simp only [List.mem_map, Prod.mk.injEq]
    constructor
    · rintro ⟨⟨pid', p⟩, hmem, rfl, rfl⟩
      exact ⟨p, hmem, rfl⟩
    · rintro ⟨p, hmem, rfl⟩
      exact ⟨(pid, p), hmem, rfl, rfl⟩
  · intro e he
    exact memoryBytes_exact (mem_samples.mp he).2

/-! ## Another order of the directory -/

theorem samples_perm {g : Generation} {c : MetricsCollector ℚ} {pids pids' : List Int32}
    (h : pids'.Perm pids) : (samples g c pids').Perm (samples g c pids) :=
  h.filterMap _

theorem processes_perm {g : Generation} (hstop : ∀ i, g.stopRequested i = false)
    (c : MetricsCollector ℚ) (totalBytes : UInt64) {pids pids' : Pids}
    (hpids : g.source.pids = .ok pids) (hn : pids.val.Nodup) (h : pids'.val.Perm pids.val) :
    (c.processes (listing g pids') totalBytes).1 = (c.processes g totalBytes).1 := by
  have hrows : ranking (sampledRows c g totalBytes pids'.val) =
      ranking (sampledRows c g totalBytes pids.val) := by
    apply ranking_congr
    · exact (samples_perm h).map _
    · rw [sampledRows_pids]
      exact samples_nodup hn
  have htally : ∀ outcome, tally g c outcome pids'.val = tally g c outcome pids.val := fun outcome =>
    h.countP_eq _
  have hmalformed : malformedCount g c pids'.val = malformedCount g c pids.val := h.countP_eq _
  have hlength := (samples_perm (g := g) (c := c) h).length_eq
  rw [processes_outcome hstop c totalBytes hpids,
    processes_outcome (g := listing g pids') hstop c totalBytes rfl]
  -- The listing reads the same records.
  have hsame : ∀ l, samples (listing g pids') c l = samples g c l := fun _ => rfl
  have htallies : ∀ outcome l, tally (listing g pids') c outcome l = tally g c outcome l :=
    fun _ _ => rfl
  have hmalformeds : ∀ l, malformedCount (listing g pids') c l = malformedCount g c l := fun _ => rfl
  have hrowss : ∀ l, sampledRows c (listing g pids') totalBytes l = sampledRows c g totalBytes l :=
    fun _ => rfl
  simp only [hsame, htallies, hmalformeds, hrowss]
  rw [hrows, htally, htally, htally, hmalformed, hlength]
  rfl

theorem collect_perm {g : Generation} (hstop : ∀ i, g.stopRequested i = false)
    (c : MetricsCollector ℚ) {pids pids' : Pids} (hpids : g.source.pids = .ok pids)
    (hn : pids.val.Nodup) (h : pids'.val.Perm pids.val) :
    (c.collect (listing g pids')).1 = (c.collect g).1 := by
  have hsection := processes_perm hstop (c.timed g) (memory (D := ℚ) g).value.totalBytes hpids hn h
  have htimed : c.timed (listing g pids') = c.timed g := rfl
  have hmemory : memory (D := ℚ) (listing g pids') = memory g := rfl
  unfold collect
  dsimp only
  rw [htimed, hmemory, hsection]
  rfl

/-- The section accounts for every listed process, and does not depend on how they are listed. -/
theorem top_processes {g : Generation} (hstop : ∀ i, g.stopRequested i = false)
    (c : MetricsCollector ℚ) {pids : Pids} (hpids : g.source.pids = .ok pids) (hn : pids.val.Nodup) :
    ProcessesAccounted c g pids.val (c.collect g).1 (c.collect g).2 ∧
      ∀ pids' : Pids, pids'.val.Perm pids.val →
        (c.collect (listing g pids')).1 = (c.collect g).1 ∧
          ∀ pid, (c.collect (listing g pids')).2.processesPrevious.get pid =
            (c.collect g).2.processesPrevious.get pid := by
  have haccounted := processes_accounted hstop c hpids hn
  refine ⟨haccounted, fun pids' h => ⟨collect_perm hstop c hpids hn h, fun pid => ?_⟩⟩
  have hbaseline := (processes_accounted (g := listing g pids') hstop c rfl
    (h.nodup_iff.mpr hn)).baseline pid
  have hmem : ∀ p, (pid, p) ∈ samples (listing g pids') c pids'.val ↔ (pid, p) ∈ samples g c pids.val :=
    fun _ => (samples_perm h).mem_iff
  refine Option.ext fun v => ?_
  rw [hbaseline, haccounted.baseline]
  simp only [hmem]

/-- Two processes; the one with the larger pid is listed first. -/
def twoProcesses : Generation :=
  { source :=
      { proc := fun path =>
          if path = lit "1/stat" then .ok (lit "1 (a) R 0 0 0 0 0 0 0 0 0 0 0 0 0 0 0 0 1 0 7 0 3")
          else if path = lit "2/stat" then .ok (lit "2 (b) S 0 0 0 0 0 0 0 0 0 0 0 0 0 0 0 0 1 0 8 0 5")
          else .error 2
        sys := fun _ => .error 2
        cgroup := fun _ => .error 2
        pids := .ok ⟨[2, 1], by decide⟩
        filesystem := .error 5
        cgroupIdentity := []
        message := fun _ => [] }
    now := epoch }

theorem top_processes_two :
    ProcessesAccounted watching twoProcesses [2, 1] (watching.collect twoProcesses).1
        (watching.collect twoProcesses).2 ∧
      (watching.collect (listing twoProcesses ⟨[1, 2], by decide⟩)).1 =
        (watching.collect twoProcesses).1 := by
  have h := top_processes (g := twoProcesses) (fun _ => rfl) watching rfl (by decide)
  exact ⟨h.1, (h.2 ⟨[1, 2], by decide⟩ (by decide)).1⟩

end WebHtop.Server.Collectors.MetricsCollector
