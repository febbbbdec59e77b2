import WebHtop.Common.Models.Contents
import WebHtop.Common.Protocol

/-!
# What Decode lets through

The checks read the document and `FromJson` reads it again, so each guarantee is carried
from the one reading to the other: first what every check accepts, then what the snapshot
built from an accepted document satisfies.
-/

namespace WebHtop.Common

open WebHtop.Lib JSONValue

variable {D : Type} [Double D]

namespace Decode

/-! ## What the checks accept -/

theorem require_ok {condition : Bool} {reason : Bytes} :
    require condition reason = .ok () ↔ condition = true := by
  cases condition <;> simp [require]

theorem forEach_ok {α : Type} {check : α → Except Bytes Unit} {as : List α} :
    forEach check as = .ok () ↔ ∀ a ∈ as, check a = .ok () := by
  induction as with
  | nil => simp [forEach]
  | cons a as ih =>
      rw [forEach, List.forall_mem_cons]
      cases check a with
      | error reason => simp
      | ok u => simp [ih]

theorem then_ok {α : Type} {x : Except Bytes Unit} {y : Except Bytes α} {b : α} :
    (x >>= fun _ => y) = .ok b ↔ x = .ok () ∧ y = .ok b := by
  cases x with
  | error reason => simp [bind, Except.bind]
  | ok u => simp [bind, Except.bind]

def sections : List Bytes :=
  [lit "cpu", lit "memory", lit "network", lit "disk", lit "process", lit "loadavg"]

/-- A document that passes every check. -/
structure Accepted (v : JSONValue D) : Prop where
  version : checkVersion v = .ok ()
  objects : ∀ key ∈ sections ++ [lit "telemetry"], checkObject v key = .ok ()
  timestamps : ∀ key ∈ sections, checkTimestamp v key = .ok ()
  topology : checkTopology (deref v (lit "cpu")) = .ok ()
  totalUsage : checkTotalUsage (deref v (lit "cpu")) = .ok ()
  coreUsage : ∀ n ∈ arrayOr (deref v (lit "cpu")) (lit "per_core_usage_percent"),
    checkCoreUsage n = .ok ()
  accounting : ∀ key ∈ [lit "memory", lit "disk"], checkAccounting v key = .ok ()
  rates : ∀ key ∈ [lit "rx_kbps", lit "tx_kbps"], checkRate v key = .ok ()
  loads : ∀ key ∈ [lit "load_1m", lit "load_5m", lit "load_15m"], checkLoad v key = .ok ()
  identity : checkIdentity (deref v (lit "telemetry")) = .ok ()
  interval : checkInterval (deref v (lit "telemetry")) = .ok ()
  processList : checkProcessList (deref v (lit "process")) = .ok ()
  processes : ∀ p ∈ arrayOr (deref v (lit "process")) (lit "processes"), checkProcess p = .ok ()

theorem checkDocument_ok {v : JSONValue D} : checkDocument v = .ok () ↔ Accepted v := by
  simp only [checkDocument, then_ok, forEach_ok]
  constructor
  · rintro ⟨h1, h2, h3, h4, h5, h6, h7, h8, h9, h10, h11, h12, h13⟩
    exact ⟨h1, h2, h3, h4, h5, h6, h7, h8, h9, h10, h11, h12, h13⟩
  · rintro ⟨h1, h2, h3, h4, h5, h6, h7, h8, h9, h10, h11, h12, h13⟩
    exact ⟨h1, h2, h3, h4, h5, h6, h7, h8, h9, h10, h11, h12, h13⟩

/-- Decoding an accepted tree, up to the check on the snapshot. -/
theorem decodeTree_ok {v : JSONValue D} {s : SystemSnapshot D} :
    decodeTree v = .ok s ↔
      Accepted v ∧ SystemSnapshot.fromJson v = s ∧ checkMetrics s = .ok () := by
  simp only [decodeTree, then_ok, checkDocument_ok]
  constructor
  · rintro ⟨ha, hm, hs⟩
    obtain rfl := Except.ok.inj hs
    exact ⟨ha, rfl, hm⟩
  · rintro ⟨ha, rfl, hm⟩
    exact ⟨ha, hm, rfl⟩

/-! ## Every refusal gives a reason -/

/-- A refusal carries a non-empty text. -/
def Explains {α : Type} (x : Except Bytes α) : Prop := ∀ reason, x = .error reason → reason ≠ []

theorem explains_require {condition : Bool} {reason : Bytes} (h : reason ≠ []) :
    Explains (require condition reason) := by
  intro r hr
  cases condition with
  | true => cases hr
  | false => exact Except.error.inj hr ▸ h

theorem explains_forEach {α : Type} {check : α → Except Bytes Unit} (h : ∀ a, Explains (check a))
    (as : List α) : Explains (forEach check as) := by
  induction as with
  | nil => exact fun _ hr => nomatch hr
  | cons a as ih =>
      intro r hr
      rw [forEach] at hr
      cases hc : check a with
      | error reason =>
          rw [hc] at hr
          exact Except.error.inj hr ▸ h a reason hc
      | ok u =>
          rw [hc] at hr
          exact ih r hr

theorem explains_then {α : Type} {x : Except Bytes Unit} {y : Except Bytes α} (hx : Explains x)
    (hy : Explains y) : Explains (x >>= fun _ => y) := by
  intro r hr
  cases x with
  | error reason => exact Except.error.inj hr ▸ hx reason rfl
  | ok u => exact hy r hr

/-- A text that begins with a literal is not empty. -/
theorem append_ne_nil {s : String} (h : lit s ≠ []) (key : Bytes) : lit s ++ key ≠ [] := by
  simp [h]

theorem explains_checkDocument (v : JSONValue D) : Explains (checkDocument v) := by
  unfold checkDocument
  refine explains_then (explains_require (by decide)) <|
    explains_then (explains_forEach (fun key => explains_require (append_ne_nil (by decide) key)) _) <|
    explains_then (explains_forEach (fun key => explains_require (append_ne_nil (by decide) key)) _) <|
    explains_then (explains_require (by decide)) <|
    explains_then (explains_require (by decide)) <|
    explains_then (explains_forEach (fun _ => explains_require (by decide)) _) <|
    explains_then (explains_forEach (fun key => explains_require (append_ne_nil (by decide) key)) _) <|
    explains_then (explains_forEach (fun key => explains_require (append_ne_nil (by decide) key)) _) <|
    explains_then (explains_forEach (fun key => explains_require (append_ne_nil (by decide) key)) _) <|
    explains_then (explains_require (by decide)) <|
    explains_then (explains_require (by decide)) <|
    explains_then (explains_require (by decide)) <|
    explains_forEach (fun _ => explains_require (by decide)) _

theorem explains_decode (payload : Bytes) : Explains (decode payload : Except Bytes (SystemSnapshot D)) := by
  unfold decode
  cases parse payload (D := D) with
  | none =>
      intro r hr
      exact Except.error.inj hr ▸ by decide
  | some v =>
      exact explains_then (explains_checkDocument v)
        (explains_then (explains_require (by decide)) fun _ hr => nomatch hr)

end Decode

/-! ## The two readings of a field -/

/-- The integer a number of the document is. -/
def JSONValue.integerValue : JSONValue D → Option Int
  | .int64 i => some i.toInt
  | .uint64 u => some u.toNat
  | _ => none

section

variable {v : JSONValue D} {key : Bytes}

omit [Double D] in
/-- A number that UInt accepts is that integer, also for AsInt64. -/
theorem uint_reads {n : UInt64} (h : Access.uint v key = some n) :
    (v.field key).bind integerValue = some (n.toNat : Int) ∧
      (n.toNat ≤ 2 ^ 63 - 1 → ∃ i, int64At v key = some i ∧ i.toInt = n.toNat) := by
  obtain ⟨w, hw, hn⟩ := Option.bind_eq_some_iff.mp h
  rw [int64At, hw]
  cases w with
  | int64 i =>
      have hlt := i.toInt_lt
      simp only [asUInt64] at hn
      split at hn
      · obtain rfl := Option.some.inj hn
        have hnat : (UInt64.ofNat i.toInt.toNat).toNat = i.toInt.toNat := by
          rw [UInt64.toNat_ofNat', Nat.mod_eq_of_lt (by omega)]
        have hcast : ((UInt64.ofNat i.toInt.toNat).toNat : Int) = i.toInt := by omega
        exact ⟨congrArg some hcast.symm, fun _ => ⟨i, rfl, hcast.symm⟩⟩
      · cases hn
  | uint64 u =>
      obtain rfl := Option.some.inj hn
      refine ⟨rfl, fun hle => ⟨Int64.ofNat u.toNat, if_pos hle, ?_⟩⟩
      exact Int64.toInt_ofNat_of_lt (by omega)
  | _ => cases hn

omit [Double D] in
theorem uintOr_eq {n : UInt64} (h : Access.uint v key = some n) (default : UInt64) :
    uintOr v key default = n := by
  rw [uintOr, h]
  rfl

theorem double_reads {d : D} (h : Access.number v key = some d) :
    Finite d ∧ doubleOr v key = d := by
  obtain ⟨hd, hf⟩ := Option.filter_eq_some_iff.mp h
  refine ⟨hf, ?_⟩
  rw [doubleOr, hd]
  rfl

end

/-! ## What an accepted snapshot satisfies -/

section

variable [LawfulDouble D]

/-- A number that is not negative. -/
structure Nonnegative (d : D) : Prop where
  finite : Finite d
  nonneg : 0 ≤ LawfulDouble.val d

structure Percentage (d : D) : Prop extends Nonnegative d where
  le : LawfulDouble.val d ≤ 100

theorem nonnegative_iff {d : D} (h : Finite d) : Decode.negative d = false ↔ Nonnegative d := by
  have hzero : LawfulDouble.val (Double.ofInt64 0 : D) = 0 :=
    LawfulDouble.val_ofInt64 (by decide)
  have hlt := LawfulDouble.lt_iff h (LawfulDouble.finite_ofInt64 (D := D) 0)
  rw [hzero] at hlt
  rw [Decode.negative, ← Bool.not_eq_true, hlt, not_lt]
  exact ⟨fun hle => ⟨h, hle⟩, fun hn => hn.nonneg⟩

theorem percentage_iff {d : D} (h : Finite d) :
    (Decode.negative d = false ∧ Decode.above100 d = false) ↔ Percentage d := by
  have hhundred : LawfulDouble.val (Double.ofInt64 100 : D) = 100 :=
    LawfulDouble.val_ofInt64 (by decide)
  have hlt := LawfulDouble.lt_iff (LawfulDouble.finite_ofInt64 (D := D) 100) h
  rw [hhundred] at hlt
  rw [nonnegative_iff h, Decode.above100, ← Bool.not_eq_true, hlt, not_lt]
  exact ⟨fun ⟨hn, hle⟩ => ⟨hn, hle⟩, fun hp => ⟨hp.toNonnegative, hp.le⟩⟩

structure ByteAccounting (total available used : UInt64) (percent : D) : Prop where
  available_le : available ≤ total
  used_le : used ≤ total
  percent : Percentage percent

structure ProcessInfo.Valid (p : ProcessInfo D) : Prop where
  pid : 1 ≤ p.pid.toInt ∧ p.pid.toInt ≤ 2 ^ 31 - 1
  state : 0 ≤ p.state.toInt ∧ p.state.toInt ≤ 127
  cpu : Nonnegative p.cpuPercent
  memory : Nonnegative p.memoryPercent

/-- The promises of an accepted snapshot. -/
structure SystemSnapshot.Valid (s : SystemSnapshot D) : Prop where
  instanceId : s.telemetry.instanceId ≠ []
  interval : 100 ≤ s.telemetry.intervalMs.toNat ∧ s.telemetry.intervalMs.toNat ≤ 60000
  cores_le : s.cpu.coreCount.toNat ≤ 65536
  cores_eq : s.cpu.coreCount.toNat = s.cpu.perCoreUsagePercent.length
  totalUsage : Percentage s.cpu.totalUsagePercent
  coreUsage : ∀ d ∈ s.cpu.perCoreUsagePercent, Percentage d
  memory : ByteAccounting s.memory.totalBytes s.memory.availableBytes s.memory.usedBytes
    s.memory.usedPercent
  disk : ByteAccounting s.disk.totalBytes s.disk.availableBytes s.disk.usedBytes s.disk.usedPercent
  rates : Nonnegative s.network.rxKbps ∧ Nonnegative s.network.txKbps
  loads : Nonnegative s.loadavg.load1m ∧ Nonnegative s.loadavg.load5m ∧
    Nonnegative s.loadavg.load15m
  processes_le : s.process.processes.length ≤ 10000
  processes : ∀ p ∈ s.process.processes, p.Valid
  parts : ∀ a ∈ s.parts, a.Clean Finite

/-- The integers that are narrowed on the way are those of the document. -/
structure Unnarrowed (v : JSONValue D) (s : SystemSnapshot D) : Prop where
  cores : ((Decode.deref v (lit "cpu")).field (lit "core_count")).bind integerValue =
    some (s.cpu.coreCount.toNat : Int)
  pids : (arrayOr (Decode.deref v (lit "process")) (lit "processes")).map
      (fun p => (p.field (lit "pid")).bind integerValue) =
    s.process.processes.map fun p => some p.pid.toInt
  threads : (arrayOr (Decode.deref v (lit "process")) (lit "processes")).map
      (fun p => (p.field (lit "thread_count")).bind integerValue) =
    s.process.processes.map fun p => some (p.threadCount.toNat : Int)

variable {v : JSONValue D} {key : Bytes}

omit [Double D] [LawfulDouble D] in
theorem section_eq {α : Type} [Inhabited α] (h : Decode.checkObject v key = .ok ())
    (f : JSONValue D → α) : ((v.field key).map f).getD default = f (Decode.deref v key) := by
  obtain ⟨w, hw, -⟩ := (Option.any_eq_true _ _).mp (Decode.require_ok.mp h)
  rw [Decode.deref, hw]
  rfl

theorem nonnegative_reads (h : Decode.nonnegative (Access.number v key) = true) :
    Nonnegative (doubleOr v key) := by
  obtain ⟨d, hd, hn⟩ := (Option.any_eq_true _ _).mp h
  obtain ⟨hf, heq⟩ := double_reads hd
  rw [heq]
  exact (nonnegative_iff hf).mp (by simpa using hn)

theorem percentage_reads (h : Decode.percentage (Access.number v key) = true) :
    Percentage (doubleOr v key) := by
  obtain ⟨d, hd, hn⟩ := (Option.any_eq_true _ _).mp h
  obtain ⟨hf, heq⟩ := double_reads hd
  rw [heq]
  exact (percentage_iff hf).mp (by simpa using hn)

theorem accounting_reads (h : Decode.checkAccounting v key = .ok ()) :
    ByteAccounting (uintOr (Decode.deref v key) (lit "total_bytes") 0)
      (uintOr (Decode.deref v key) (lit "available_bytes") 0)
      (uintOr (Decode.deref v key) (lit "used_bytes") 0)
      (doubleOr (Decode.deref v key) (lit "used_percent")) := by
  obtain ⟨total, htotal, h⟩ := (Option.any_eq_true _ _).mp (Decode.require_ok.mp h)
  obtain ⟨available, havailable, h⟩ := (Option.any_eq_true _ _).mp h
  obtain ⟨used, hused, h⟩ := (Option.any_eq_true _ _).mp h
  obtain ⟨h1, h2, h3⟩ := of_decide_eq_true h
  rw [uintOr_eq htotal, uintOr_eq havailable, uintOr_eq hused]
  exact ⟨h1, h2, percentage_reads h3⟩

/-- The cores are counted by the array, and every one of its elements is kept. -/
theorem cores_reads {cpu : JSONValue D} (h : Decode.checkTopology cpu = .ok ())
    (hu : ∀ n ∈ arrayOr cpu (lit "per_core_usage_percent"), Decode.checkCoreUsage n = .ok ()) :
    (CPUMetrics.fromJson cpu).coreCount.toNat ≤ 65536 ∧
      (CPUMetrics.fromJson cpu).coreCount.toNat =
        (CPUMetrics.fromJson cpu).perCoreUsagePercent.length ∧
      (∀ d ∈ (CPUMetrics.fromJson cpu).perCoreUsagePercent, Percentage d) ∧
      (cpu.field (lit "core_count")).bind integerValue =
        some ((CPUMetrics.fromJson cpu).coreCount.toNat : Int) := by
  obtain ⟨cores, hcores, h⟩ := (Option.any_eq_true _ _).mp (Decode.require_ok.mp h)
  obtain ⟨hle, h⟩ := of_decide_eq_true h
  obtain ⟨perCore, hperCore, h⟩ := (Option.any_eq_true _ _).mp h
  obtain ⟨harray, hsize⟩ := of_decide_eq_true h
  have hcount : (CPUMetrics.fromJson cpu).coreCount.toNat = cores.toNat := by
    show (uintOr cpu (lit "core_count") 0).toUInt32.toNat = cores.toNat
    rw [uintOr_eq hcores, UInt64.toNat_toUInt32]
    omega
  have hread : ∀ n ∈ arrayOr cpu (lit "per_core_usage_percent"), ∃ d, n.asDouble = some d ∧
      Percentage d := by
    intro n hn
    obtain ⟨d, hd, hp⟩ := (Option.any_eq_true _ _).mp (Decode.require_ok.mp (hu n hn))
    obtain ⟨hd, hf⟩ := Option.filter_eq_some_iff.mp hd
    exact ⟨d, hd, (percentage_iff hf).mp (by simpa using hp)⟩
  have hlist : arrayOr cpu (lit "per_core_usage_percent") = perCore.asArray.getD [] := by
    rw [arrayOr, hperCore]
    rfl
  have hlength : (arrayOr cpu (lit "per_core_usage_percent")).length = cores.toNat := by
    rw [hlist, ← hsize]
    cases perCore with
    | array vs => rfl
    | _ => cases harray
  refine ⟨by omega, ?_, ?_, ?_⟩
  · rw [hcount, ← hlength]
    symm
    refine List.filterMap_length_eq_length.mpr fun n hn => ?_
    obtain ⟨d, hd, -⟩ := hread n hn
    rw [hd]
    rfl
  · intro d hd
    obtain ⟨n, hn, hd⟩ := List.mem_filterMap.mp hd
    obtain ⟨d', hd', hp⟩ := hread n hn
    exact Option.some.inj (hd'.symm.trans hd) ▸ hp
  · rw [hcount]
    exact (uint_reads hcores).1

/-- A row that passes its check, as FromJson reads it. -/
theorem process_reads {p : JSONValue D} (h : Decode.checkProcess p = .ok ()) :
    (ProcessInfo.fromJson p).Valid ∧
      (p.field (lit "pid")).bind integerValue = some (ProcessInfo.fromJson p).pid.toInt ∧
      (p.field (lit "thread_count")).bind integerValue =
        some ((ProcessInfo.fromJson p).threadCount.toNat : Int) := by
  obtain ⟨hpid, hthreads, hcpu, hmemory, hname, hstate, hbytes, hstart⟩ :=
    of_decide_eq_true (Decode.require_ok.mp h)
  obtain ⟨pid, hpid, hle⟩ := (Option.any_eq_true _ _).mp hpid
  obtain ⟨hne, hle⟩ := of_decide_eq_true hle
  obtain ⟨threads, hthreads, htle⟩ := (Option.any_eq_true _ _).mp hthreads
  obtain ⟨state, hstate, hsle⟩ := (Option.any_eq_true _ _).mp hstate
  have htle := of_decide_eq_true htle
  have hsle := of_decide_eq_true hsle
  obtain ⟨hpidValue, hpidInt⟩ := uint_reads hpid
  obtain ⟨i, hi, hieq⟩ := hpidInt (by omega)
  obtain ⟨j, hj, hjeq⟩ := (uint_reads hstate).2 (by omega)
  have hpidEq : (ProcessInfo.fromJson p).pid.toInt = pid.toNat := by
    show (((int64At p (lit "pid")).map Int64.toInt32).getD 0).toInt = _
    rw [hi, Option.map_some, Option.getD_some, Int64.toInt_toInt32, hieq]
    exact Int.bmod_eq_of_le (by omega) (by omega)
  have hstateEq : (ProcessInfo.fromJson p).state.toInt = state.toNat := by
    show (((int64At p (lit "state")).map Int64.toInt8).getD ProcessState.unknown).toInt = _
    rw [hj, Option.map_some, Option.getD_some, Int64.toInt_toInt8, hjeq]
    exact Int.bmod_eq_of_le (by omega) (by omega)
  have hthreadsEq : (ProcessInfo.fromJson p).threadCount.toNat = threads.toNat := by
    show (uintOr p (lit "thread_count") 0).toUInt32.toNat = _
    rw [uintOr_eq hthreads, UInt64.toNat_toUInt32]
    omega
  have hpos : 1 ≤ pid.toNat := by
    have : pid.toNat ≠ 0 := fun h0 => hne (UInt64.toNat.inj h0)
    omega
  refine ⟨⟨by omega, by omega, nonnegative_reads hcpu, nonnegative_reads hmemory⟩, ?_, ?_⟩
  · rw [hpidValue, hpidEq]
  · rw [hthreadsEq]
    exact (uint_reads hthreads).1

omit [LawfulDouble D] in
theorem interval_reads {t : JSONValue D} (h : Decode.checkInterval t = .ok ()) :
    100 ≤ (TelemetryInfo.fromJson t).intervalMs.toNat ∧
      (TelemetryInfo.fromJson t).intervalMs.toNat ≤ 60000 := by
  obtain ⟨interval, hinterval, hbounds⟩ := (Option.any_eq_true _ _).mp (Decode.require_ok.mp h)
  have heq : (TelemetryInfo.fromJson t).intervalMs = interval := uintOr_eq hinterval 1000
  rw [heq]
  exact of_decide_eq_true hbounds

omit [LawfulDouble D] in
theorem processList_reads {process : JSONValue D} (h : Decode.checkProcessList process = .ok ()) :
    (ProcessMetrics.fromJson process).processes.length ≤ 10000 := by
  obtain ⟨list, hlist, h⟩ := (Option.any_eq_true _ _).mp (Decode.require_ok.mp h)
  obtain ⟨harray, hlength⟩ := of_decide_eq_true h
  show ((arrayOr process (lit "processes")).map ProcessInfo.fromJson).length ≤ 10000
  rw [List.length_map, arrayOr, hlist]
  cases list with
  | array vs => exact hlength
  | _ => cases harray

/-- An accepted document, as FromJson reads it. -/
theorem valid_of_accepted (hc : v.Clean Finite) (h : Decode.Accepted v) :
    (SystemSnapshot.fromJson v).Valid ∧ Unnarrowed v (SystemSnapshot.fromJson v) := by
  have hobject : ∀ key ∈ Decode.sections ++ [lit "telemetry"], Decode.checkObject v key = .ok () :=
    h.objects
  simp only [Decode.sections, List.forall_mem_append, List.forall_mem_cons] at hobject
  obtain ⟨⟨hcpu, hmemory, hnetwork, hdisk, hprocess, hloadavg, -⟩, htelemetry, -⟩ := hobject
  have hcpu := section_eq hcpu CPUMetrics.fromJson
  have hmemory := section_eq hmemory MemoryMetrics.fromJson
  have hnetwork := section_eq hnetwork NetworkMetrics.fromJson
  have hdisk := section_eq hdisk DiskMetrics.fromJson
  have hprocess := section_eq hprocess ProcessMetrics.fromJson
  have hloadavg := section_eq hloadavg LoadavgMetrics.fromJson
  have htelemetry := section_eq htelemetry TelemetryInfo.fromJson
  have hparts := SystemSnapshot.clean_fromJson hc
  obtain ⟨hle, heq, hcores, hcoreValue⟩ := cores_reads h.topology h.coreUsage
  have haccounting := h.accounting
  have hrates := h.rates
  have hloads := h.loads
  simp only [List.forall_mem_cons] at haccounting hrates hloads
  have hprocesses : (ProcessMetrics.fromJson (Decode.deref v (lit "process"))).processes =
      (arrayOr (Decode.deref v (lit "process")) (lit "processes")).map ProcessInfo.fromJson := rfl
  have hidentity := of_decide_eq_true (Decode.require_ok.mp h.identity)
  constructor
  · refine ⟨?_, ?_, ?_, ?_, ?_, ?_, ?_, ?_, ?_, ?_, ?_, ?_, hparts⟩
    · rw [SystemSnapshot.fromJson, htelemetry]
      exact hidentity.2
    · rw [SystemSnapshot.fromJson, htelemetry]
      exact interval_reads h.interval
    · rw [SystemSnapshot.fromJson, hcpu]
      exact hle
    · rw [SystemSnapshot.fromJson, hcpu]
      exact heq
    · rw [SystemSnapshot.fromJson, hcpu]
      exact percentage_reads (Decode.require_ok.mp h.totalUsage)
    · rw [SystemSnapshot.fromJson, hcpu]
      exact hcores
    · rw [SystemSnapshot.fromJson, hmemory]
      exact accounting_reads haccounting.1
    · rw [SystemSnapshot.fromJson, hdisk]
      exact accounting_reads haccounting.2.1
    · rw [SystemSnapshot.fromJson, hnetwork]
      exact ⟨nonnegative_reads (Decode.require_ok.mp hrates.1),
        nonnegative_reads (Decode.require_ok.mp hrates.2.1)⟩
    · rw [SystemSnapshot.fromJson, hloadavg]
      exact ⟨nonnegative_reads (Decode.require_ok.mp hloads.1),
        nonnegative_reads (Decode.require_ok.mp hloads.2.1),
        nonnegative_reads (Decode.require_ok.mp hloads.2.2.1)⟩
    · rw [SystemSnapshot.fromJson, hprocess]
      exact processList_reads h.processList
    · rw [SystemSnapshot.fromJson, hprocess]
      intro p hp
      obtain ⟨row, hrow, rfl⟩ := List.mem_map.mp hp
      exact (process_reads (h.processes row hrow)).1
  · rw [SystemSnapshot.fromJson, hcpu, hprocess]
    refine ⟨hcoreValue, ?_, ?_⟩
    · rw [hprocesses, List.map_map]
      exact List.map_congr_left fun row hrow => (process_reads (h.processes row hrow)).2.1
    · rw [hprocesses, List.map_map]
      exact List.map_congr_left fun row hrow => (process_reads (h.processes row hrow)).2.2

end

/-- Decode returns only valid snapshots, narrows no number, and explains every refusal. -/
theorem decoded_snapshot_valid [LawfulDouble D] (p : Bytes) :
    match (decode p : Except Bytes (SystemSnapshot D)) with
    | .ok s => s.Valid ∧ ∃ v, parse p = some v ∧ Unnarrowed v s
    | .error reason => reason ≠ [] := by
  cases h : (decode p : Except Bytes (SystemSnapshot D)) with
  | error reason => exact Decode.explains_decode p reason h
  | ok s =>
      unfold decode at h
      cases hp : parse p (D := D) with
      | none =>
          rw [hp] at h
          cases h
      | some v =>
          rw [hp] at h
          obtain ⟨ha, rfl, -⟩ := Decode.decodeTree_ok.mp h
          obtain ⟨hvalid, hexact⟩ := valid_of_accepted (parse_clean hp) ha
          exact ⟨hvalid, v, rfl, hexact⟩

end WebHtop.Common
