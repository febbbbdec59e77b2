import WebHtop.Common.Json.Compact
import WebHtop.Common.Models.Reread
import WebHtop.Common.Models.Sizes
import WebHtop.Common.Validation

/-!
# Snapshots that have been written and read

A valid snapshot of plain doubles passes every check of Decode a second time, and Decode returns a
snapshot that is equal to it in every field.
-/

namespace WebHtop.Common

open WebHtop.Lib JSONValue

variable {D : Type} [Double D] [LawfulDouble D] {real : D → JSONValue D} {v : JSONValue D}
  {key : Bytes}

/-- The parts of a section are parts of the snapshot. -/
structure SystemSnapshot.AllPlain (s : SystemSnapshot D) : Prop where
  telemetry : ∀ a ∈ s.telemetry.parts, a.Clean Plain
  cpu : ∀ a ∈ s.cpu.parts, a.Clean Plain
  memory : ∀ a ∈ s.memory.parts, a.Clean Plain
  disk : ∀ a ∈ s.disk.parts, a.Clean Plain
  network : ∀ a ∈ s.network.parts, a.Clean Plain
  loadavg : ∀ a ∈ s.loadavg.parts, a.Clean Plain
  process : ∀ a ∈ s.process.parts, a.Clean Plain

theorem SystemSnapshot.allPlain_iff {s : SystemSnapshot D} :
    (∀ a ∈ s.parts, a.Clean Plain) ↔ s.AllPlain := by
  simp only [parts, List.forall_mem_append]
  constructor
  · rintro ⟨⟨⟨⟨⟨⟨h1, h2⟩, h3⟩, h4⟩, h5⟩, h6⟩, h7⟩
    exact ⟨h1, h2, h3, h4, h5, h6, h7⟩
  · rintro ⟨h1, h2, h3, h4, h5, h6, h7⟩
    exact ⟨⟨⟨⟨⟨⟨h1, h2⟩, h3⟩, h4⟩, h5⟩, h6⟩, h7⟩

theorem SystemSnapshot.fromJson_back (hr : Readback real) {s : SystemSnapshot D}
    (hp : s.AllPlain) : (fromJson (back real (encodeTree s))).Equal s := by
  have h1 : (back real (encodeTree s)).field (lit "telemetry") =
      some (back real s.telemetry.toJson) := field_back rfl
  have h2 : (back real (encodeTree s)).field (lit "cpu") = some (back real s.cpu.toJson) :=
    field_back rfl
  have h3 : (back real (encodeTree s)).field (lit "memory") = some (back real s.memory.toJson) :=
    field_back rfl
  have h4 : (back real (encodeTree s)).field (lit "disk") = some (back real s.disk.toJson) :=
    field_back rfl
  have h5 : (back real (encodeTree s)).field (lit "network") = some (back real s.network.toJson) :=
    field_back rfl
  have h6 : (back real (encodeTree s)).field (lit "loadavg") = some (back real s.loadavg.toJson) :=
    field_back rfl
  have h7 : (back real (encodeTree s)).field (lit "process") = some (back real s.process.toJson) :=
    field_back rfl
  simp (disch := with_unfolding_all exact id rfl) only [Equal, fromJson, map, uintOr_back, h1, h2,
    h3, h4, h5, h6, h7, Option.map_some, Option.getD_some,
    TelemetryInfo.fromJson_back hr hp.telemetry, CPUMetrics.fromJson_back hr hp.cpu,
    MemoryMetrics.fromJson_back hr hp.memory, DiskMetrics.fromJson_back hr hp.disk,
    NetworkMetrics.fromJson_back hr hp.network, LoadavgMetrics.fromJson_back hr hp.loadavg,
    ProcessMetrics.fromJson_back hr hp.process]
  rfl

/-! ## The checks -/

theorem nonnegative_of_val {d d' : D} (hf : Double.isFinite d' = true)
    (hval : LawfulDouble.val d' = LawfulDouble.val d) (h : Nonnegative d) : Nonnegative d' :=
  ⟨hf, hval ▸ h.nonneg⟩

theorem percentage_of_val {d d' : D} (hf : Double.isFinite d' = true)
    (hval : LawfulDouble.val d' = LawfulDouble.val d) (h : Percentage d) : Percentage d' :=
  ⟨nonnegative_of_val hf hval h.toNonnegative, hval ▸ h.le⟩

theorem nonnegative_back (hr : Readback real) (key : Bytes) (hv : v.isObject = true) {d : D}
    (h : v.field key = some (.double d)) (hd : Plain d) (hn : Nonnegative d) :
    Decode.nonnegative (Access.number (back real v) key) = true := by
  obtain ⟨d', hread, hf, hval⟩ := number_back hr key hv h hd
  rw [hread]
  simpa [Decode.nonnegative] using (nonnegative_iff hf).mpr (nonnegative_of_val hf hval hn)

/-- A number that has been found as a finite one of the value of a percentage. -/
theorem percentage_found {n : Option D} {d : D} (hn : Percentage d)
    (h : ∃ d', n = some d' ∧ Double.isFinite d' = true ∧
      LawfulDouble.val d' = LawfulDouble.val d) : Decode.percentage n = true := by
  obtain ⟨d', rfl, hf, hval⟩ := h
  simpa [Decode.percentage] using (percentage_iff hf).mpr (percentage_of_val hf hval hn)

section

omit [Double D] [LawfulDouble D]

theorem deref_back {w : JSONValue D} (hv : v.isObject = true) (h : v.field key = some w) :
    Decode.deref (back real v) key = back real w := by
  rw [Decode.deref, field_back hv, h]
  rfl

theorem uint_int64 {i : Int64} (h : v.field key = some (.int64 i)) (hi : 0 ≤ i.toInt) :
    Access.uint v key = some (UInt64.ofNat i.toInt.toNat) := by
  rw [Access.uint, h]
  exact if_pos hi

theorem isObject_back (h : v.isObject = true) : (back real v).isObject = true := by
  cases v with
  | object ms => rfl
  | _ => cases h

end

namespace Decode

variable {s : SystemSnapshot D}

section

omit [Double D] [LawfulDouble D]

theorem checkVersion_back : checkVersion (back real (encodeTree s)) = .ok () := by
  refine require_ok.mpr (decide_eq_true ⟨?_, ?_⟩)
  · rw [uint_back rfl rfl]
    rfl
  · rw [text_back rfl rfl]
    rfl

theorem checkObject_back {w : JSONValue D} (h : (encodeTree s).field key = some w)
    (hw : w.isObject = true) : checkObject (back real (encodeTree s)) key = .ok () := by
  apply require_ok.mpr
  rw [field_back rfl, h]
  exact isObject_back hw

theorem checkTimestamp_back {w : JSONValue D} {timestamp : UInt64}
    (h : (encodeTree s).field key = some w) (hw : w.isObject = true)
    (ht : w.field (lit "timestamp") = some (.uint64 timestamp)) :
    checkTimestamp (back real (encodeTree s)) key = .ok () := by
  apply require_ok.mpr
  rw [deref_back rfl h, uint_back hw (by rw [ht]; rfl), Access.uint, ht]
  rfl

theorem checkIdentity_back {t : TelemetryInfo D} (h : t.instanceId ≠ []) :
    checkIdentity (back real t.toJson) = .ok () := by
  refine require_ok.mpr (decide_eq_true ⟨?_, ?_⟩)
  · rw [uint_back rfl rfl]
    rfl
  · rw [text_back rfl rfl]
    exact h

theorem checkInterval_back {t : TelemetryInfo D}
    (h : 100 ≤ t.intervalMs.toNat ∧ t.intervalMs.toNat ≤ 60000) :
    checkInterval (back real t.toJson) = .ok () := by
  apply require_ok.mpr
  have hread : Access.uint t.toJson (lit "interval_ms") = some t.intervalMs := rfl
  rw [uint_back rfl rfl, hread]
  exact decide_eq_true h

theorem checkProcessList_back {m : ProcessMetrics D} (h : m.processes.length ≤ 10000) :
    checkProcessList (back real m.toJson) = .ok () := by
  apply require_ok.mpr
  have hfield : m.toJson.field (lit "processes") =
    some (.array (m.processes.map ProcessInfo.toJson)) := rfl
  rw [field_back rfl, hfield, Option.map_some, back_array]
  refine decide_eq_true ⟨rfl, ?_⟩
  simpa [size] using h

theorem checkTopology_back {m : CPUMetrics D} (hle : m.coreCount.toNat ≤ 65536)
    (heq : m.coreCount.toNat = m.perCoreUsagePercent.length) :
    checkTopology (back real m.toJson) = .ok () := by
  apply require_ok.mpr
  have hread : Access.uint m.toJson (lit "core_count") = some m.coreCount.toUInt64 := rfl
  have hfield : m.toJson.field (lit "per_core_usage_percent") =
    some (.array (m.perCoreUsagePercent.map .double)) := rfl
  rw [uint_back rfl rfl, hread, field_back rfl, hfield, Option.map_some, back_array]
  refine decide_eq_true ⟨?_, decide_eq_true ⟨rfl, ?_⟩⟩
  · simpa using hle
  · simpa [size] using heq.symm

end

theorem checkTotalUsage_back (hr : Readback real) {m : CPUMetrics D}
    (hp : ∀ a ∈ m.parts, a.Clean Plain) (h : Percentage m.totalUsagePercent) :
    checkTotalUsage (back real m.toJson) = .ok () := by
  apply require_ok.mpr
  apply percentage_found h
  exact number_back (v := m.toJson) hr _ rfl rfl (hp (.double _) List.mem_cons_self)

theorem checkCoreUsage_back (hr : Readback real) {m : CPUMetrics D}
    (hp : ∀ a ∈ m.parts, a.Clean Plain) (h : ∀ d ∈ m.perCoreUsagePercent, Percentage d) :
    ∀ n ∈ arrayOr (back real m.toJson) (lit "per_core_usage_percent"),
      checkCoreUsage n = .ok () := by
  have hlist : arrayOr m.toJson (lit "per_core_usage_percent") =
    m.perCoreUsagePercent.map .double := rfl
  rw [arrayOr_back rfl rfl, hlist]
  intro n hn
  obtain ⟨w, hw, rfl⟩ := List.mem_map.mp hn
  obtain ⟨d, hd, rfl⟩ := List.mem_map.mp hw
  obtain ⟨d', hread, hf, hval⟩ := double_back hr
    (hp (.double d) (List.mem_cons_of_mem _ (List.mem_cons_of_mem _ (List.mem_map_of_mem hd))))
  apply require_ok.mpr
  refine percentage_found (h d hd) ⟨d', ?_, hf, hval⟩
  rw [hread, Option.filter_some, if_pos hf]

/-- The accounting of the section under a key. -/
theorem checkAccounting_back (hr : Readback real) {w : JSONValue D}
    {total available used : UInt64} {percent : D} (h : (encodeTree s).field key = some w)
    (hw : w.isObject = true) (htotal : w.field (lit "total_bytes") = some (.uint64 total))
    (havailable : w.field (lit "available_bytes") = some (.uint64 available))
    (hused : w.field (lit "used_bytes") = some (.uint64 used))
    (hpercent : w.field (lit "used_percent") = some (.double percent)) (hd : Plain percent)
    (ha : ByteAccounting total available used percent) :
    checkAccounting (back real (encodeTree s)) key = .ok () := by
  have hread : ∀ {k : Bytes} {u : UInt64}, w.field k = some (.uint64 u) →
      Access.uint (back real w) k = some u := by
    intro k u hk
    rw [uint_back hw (by rw [hk]; rfl), Access.uint, hk]
    rfl
  apply require_ok.mpr
  simp only [deref_back rfl h, hread htotal, hread havailable, hread hused, Option.any_some]
  refine decide_eq_true ⟨ha.available_le, ha.used_le, ?_⟩
  exact percentage_found ha.percent (number_back hr _ hw hpercent hd)

theorem checkRate_back (hr : Readback real) {d : D}
    (h : s.network.toJson.field key = some (.double d)) (hd : Plain d) (hn : Nonnegative d) :
    checkRate (back real (encodeTree s)) key = .ok () := by
  apply require_ok.mpr
  rw [deref_back (w := s.network.toJson) rfl rfl]
  exact nonnegative_back hr key rfl h hd hn

theorem checkLoad_back (hr : Readback real) {d : D}
    (h : s.loadavg.toJson.field key = some (.double d)) (hd : Plain d) (hn : Nonnegative d) :
    checkLoad (back real (encodeTree s)) key = .ok () := by
  apply require_ok.mpr
  rw [deref_back (w := s.loadavg.toJson) rfl rfl]
  exact nonnegative_back hr key rfl h hd hn

theorem checkProcess_back (hr : Readback real) {p : ProcessInfo D}
    (hp : ∀ a ∈ p.parts, a.Clean Plain) (h : p.Valid) :
    checkProcess (back real p.toJson) = .ok () := by
  simp only [ProcessInfo.parts, List.forall_mem_cons] at hp
  obtain ⟨hpid1, hpid2⟩ := h.pid
  obtain ⟨hstate1, hstate2⟩ := h.state
  have hpid : Access.uint p.toJson (lit "pid") = some (UInt64.ofNat p.pid.toInt.toNat) := by
    rw [← Int32.toInt_toInt64] at hpid1 ⊢
    exact uint_int64 rfl (by omega)
  have hstate : Access.uint p.toJson (lit "state") = some (UInt64.ofNat p.state.toInt.toNat) := by
    rw [← Int8.toInt_toInt64] at hstate1 ⊢
    exact uint_int64 rfl hstate1
  have hthreads : Access.uint p.toJson (lit "thread_count") = some p.threadCount.toUInt64 := rfl
  have hsmall : ∀ n : Nat, n < 2 ^ 63 → (UInt64.ofNat n).toNat = n := by
    intro n hn
    rw [UInt64.toNat_ofNat', Nat.mod_eq_of_lt (by omega)]
  have hthreadsLt := p.threadCount.toNat_lt
  refine require_ok.mpr (decide_eq_true ⟨?_, ?_, ?_, ?_, ?_, ?_, ?_, ?_⟩)
  · rw [uint_back rfl rfl, hpid, Option.any_some]
    have hn := hsmall p.pid.toInt.toNat (by omega)
    refine decide_eq_true ⟨fun h0 => ?_, by omega⟩
    have := congrArg UInt64.toNat h0
    rw [hn, UInt64.toNat_zero] at this
    omega
  · rw [uint_back rfl rfl, hthreads, Option.any_some]
    exact decide_eq_true (by rw [UInt32.toNat_toUInt64]; omega)
  · exact nonnegative_back (v := p.toJson) hr _ rfl rfl hp.2.1 h.cpu
  · exact nonnegative_back (v := p.toJson) hr _ rfl rfl hp.2.2.1 h.memory
  · rw [field_back rfl]
    rfl
  · rw [uint_back rfl rfl, hstate, Option.any_some]
    have hn := hsmall p.state.toInt.toNat (by omega)
    exact decide_eq_true (by omega)
  · rw [uint_back rfl rfl]
    rfl
  · rw [uint_back rfl rfl]
    rfl

/-- The tree that comes back passes every check on the document. -/
theorem accepted_back (hr : Readback real) (hp : s.AllPlain) (h : s.Valid) :
    Accepted (back real (encodeTree s)) := by
  have hcpu : deref (back real (encodeTree s)) (lit "cpu") = back real s.cpu.toJson :=
    deref_back rfl rfl
  have htelemetry : deref (back real (encodeTree s)) (lit "telemetry") =
    back real s.telemetry.toJson := deref_back rfl rfl
  have hprocess : deref (back real (encodeTree s)) (lit "process") = back real s.process.toJson :=
    deref_back rfl rfl
  constructor
  · exact checkVersion_back
  · simp only [sections, List.forall_mem_append, List.forall_mem_cons]
    refine ⟨⟨?_, ?_, ?_, ?_, ?_, ?_, List.forall_mem_nil _⟩, ?_, List.forall_mem_nil _⟩
    · exact checkObject_back (w := s.cpu.toJson) rfl rfl
    · exact checkObject_back (w := s.memory.toJson) rfl rfl
    · exact checkObject_back (w := s.network.toJson) rfl rfl
    · exact checkObject_back (w := s.disk.toJson) rfl rfl
    · exact checkObject_back (w := s.process.toJson) rfl rfl
    · exact checkObject_back (w := s.loadavg.toJson) rfl rfl
    · exact checkObject_back (w := s.telemetry.toJson) rfl rfl
  · simp only [sections, List.forall_mem_cons]
    refine ⟨?_, ?_, ?_, ?_, ?_, ?_, List.forall_mem_nil _⟩
    · exact checkTimestamp_back (w := s.cpu.toJson) rfl rfl rfl
    · exact checkTimestamp_back (w := s.memory.toJson) rfl rfl rfl
    · exact checkTimestamp_back (w := s.network.toJson) rfl rfl rfl
    · exact checkTimestamp_back (w := s.disk.toJson) rfl rfl rfl
    · exact checkTimestamp_back (w := s.process.toJson) rfl rfl rfl
    · exact checkTimestamp_back (w := s.loadavg.toJson) rfl rfl rfl
  · rw [hcpu]
    exact checkTopology_back h.cores_le h.cores_eq
  · rw [hcpu]
    exact checkTotalUsage_back hr hp.cpu h.totalUsage
  · rw [hcpu]
    exact checkCoreUsage_back hr hp.cpu h.coreUsage
  · simp only [List.forall_mem_cons]
    refine ⟨?_, ?_, List.forall_mem_nil _⟩
    · exact checkAccounting_back (w := s.memory.toJson) hr rfl rfl rfl rfl rfl rfl
        (hp.memory (.double _) List.mem_cons_self) h.memory
    · exact checkAccounting_back (w := s.disk.toJson) hr rfl rfl rfl rfl rfl rfl
        (hp.disk (.double _) List.mem_cons_self) h.disk
  · have hplain := hp.network
    simp only [NetworkMetrics.parts, List.forall_mem_cons] at hplain ⊢
    refine ⟨?_, ?_, List.forall_mem_nil _⟩
    · exact checkRate_back hr rfl hplain.1 h.rates.1
    · exact checkRate_back hr rfl hplain.2.1 h.rates.2
  · have hplain := hp.loadavg
    simp only [LoadavgMetrics.parts, List.forall_mem_cons] at hplain ⊢
    refine ⟨?_, ?_, ?_, List.forall_mem_nil _⟩
    · exact checkLoad_back hr rfl hplain.1 h.loads.1
    · exact checkLoad_back hr rfl hplain.2.1 h.loads.2.1
    · exact checkLoad_back hr rfl hplain.2.2.1 h.loads.2.2
  · rw [htelemetry]
    exact checkIdentity_back h.instanceId
  · rw [htelemetry]
    exact checkInterval_back h.interval
  · rw [hprocess]
    exact checkProcessList_back h.processes_le
  · have hlist : arrayOr s.process.toJson (lit "processes") =
      s.process.processes.map ProcessInfo.toJson := rfl
    rw [hprocess, arrayOr_back rfl rfl, hlist]
    intro row hrow
    obtain ⟨w, hw, rfl⟩ := List.mem_map.mp hrow
    obtain ⟨p, hmem, rfl⟩ := List.mem_map.mp hw
    apply checkProcess_back hr
    · exact fun a ha => hp.process a (List.mem_flatMap.mpr ⟨p, hmem, ha⟩)
    · exact h.processes p hmem

/-- The check on the snapshot repeats two of those on the document. -/
theorem checkMetrics_fromJson (h : Accepted v) : checkMetrics (SystemSnapshot.fromJson v) = .ok () := by
  have hcpu := section_eq (h.objects (lit "cpu") (by simp [sections])) CPUMetrics.fromJson
  have hmemory := section_eq (h.objects (lit "memory") (by simp [sections])) MemoryMetrics.fromJson
  have husage : Percentage (SystemSnapshot.fromJson v).cpu.totalUsagePercent := by
    rw [SystemSnapshot.fromJson, hcpu]
    exact percentage_reads (require_ok.mp h.totalUsage)
  have hused : Percentage (SystemSnapshot.fromJson v).memory.usedPercent := by
    rw [SystemSnapshot.fromJson, hmemory]
    exact (accounting_reads (h.accounting (lit "memory") List.mem_cons_self)).percent
  obtain ⟨hlow, hhigh⟩ := (percentage_iff husage.finite).mpr husage
  obtain ⟨hlow', hhigh'⟩ := (percentage_iff hused.finite).mpr hused
  refine require_ok.mpr (decide_eq_true ⟨husage.finite, ?_, ?_, hused.finite, ?_, ?_⟩)
  · rw [hlow]
    rfl
  · rw [hhigh]
    rfl
  · rw [hlow']
    rfl
  · rw [hhigh']
    rfl

end Decode

/-- The tree that comes back from the text of a valid snapshot of plain doubles is decoded, and to
an equal snapshot. -/
theorem decodeTree_back (hr : Readback real) {s : SystemSnapshot D} (hp : s.AllPlain)
    (h : s.Valid) : ∃ s', decodeTree (back real (encodeTree s)) = .ok s' ∧ s'.Equal s := by
  have haccepted := Decode.accepted_back hr hp h
  refine ⟨_, ?_, SystemSnapshot.fromJson_back hr hp⟩
  exact Decode.decodeTree_ok.mpr ⟨haccepted, rfl, Decode.checkMetrics_fromJson haccepted⟩

/-! ## Records -/

/-- No wide double, and a text and a tree within the limits of the parser. -/
structure SystemSnapshot.Replayable (s : SystemSnapshot D) : Prop where
  narrow : ∀ d, Part.double d ∈ s.parts → ¬ Wide d
  width : s.width ≤ kMaxPayload
  nodes : s.nodes ≤ 1000000

/-- The text of a snapshot is one line that is not too long, and an equal snapshot for Decode. -/
def SystemSnapshot.Faithful (s : SystemSnapshot D) : Prop :=
  ∃ text, encode s = some text ∧ ch '\n' ∉ text ∧ text.length ≤ kMaxPayload ∧
    ∃ s', decode text = .ok s' ∧ s'.Equal s

theorem not_mem_newline {x : Bytes} (h : NoControl x) : ch '\n' ∉ x :=
  fun hmem => absurd (h _ hmem) (by decide)

omit [LawfulDouble D] in
theorem decode_ok {x : Bytes} {s : SystemSnapshot D} :
    decode x = .ok s ↔ ∃ v, parse x = some v ∧ decodeTree v = .ok s := by
  unfold decode
  cases parse x (D := D) with
  | none => simp
  | some v => simp

theorem valid_of_decode {x : Bytes} {s : SystemSnapshot D} (h : decode x = .ok s) : s.Valid := by
  have := decoded_snapshot_valid (D := D) x
  rw [h] at this
  exact this.1

/-- Every double of a valid snapshot is written. -/
theorem encode_of_valid {s : SystemSnapshot D} (h : s.Valid) :
    ∃ text, encode s = some text ∧ text.length = s.width ∧ ch '\n' ∉ text := by
  have hwrites : ∀ d : D, Double.isFinite d = true → (doubleText d).isSome = true := by
    intro d hf
    have hlength := LawfulDouble.length_toChars hf
    rw [doubleText, if_neg (by simp [hf]), if_neg (by omega)]
    rfl
  have hclean := (s.written.clean _).mpr h.parts
  obtain ⟨text, htext⟩ := Option.isSome_iff_exists.mp
    (serializeTo_isSome hwrites (encodeTree s) hclean (-1) 0)
  obtain ⟨hlength, hcontrol⟩ := toString_compact htext
  exact ⟨text, htext, hlength.trans s.written.width, not_mem_newline hcontrol⟩

variable [PlainNotation D]

/-- A snapshot whose text is decoded is replayable. -/
theorem replayable_of_decode {s s' : SystemSnapshot D} {text : Bytes} (h : s.Valid)
    (htext : encode s = some text) (hdecode : decode text = .ok s') : s.Replayable := by
  obtain ⟨v, hv, -⟩ := decode_ok.mp hdecode
  obtain ⟨hlength, -⟩ := parse_sound hv
  have hclean := (s.written.clean _).mpr h.parts
  obtain ⟨hplain, hnodes⟩ := parse_toString_plain hclean htext hv
  constructor
  · intro d hd
    exact (s.written.clean _).mp hplain _ hd
  · have hwidth := (toString_compact htext).1
    rw [s.written.width] at hwidth
    exact hwidth ▸ hlength
  · rw [← s.written.nodes]
    exact hnodes

theorem faithful_of_replayable {s : SystemSnapshot D} (h : s.Valid) (hr : s.Replayable) :
    s.Faithful := by
  obtain ⟨text, htext, hlength, hnewline⟩ := encode_of_valid h
  obtain ⟨real, hreal⟩ := exists_readback (D := D)
  have hplain : ∀ a ∈ s.parts, a.Clean Plain := by
    intro a ha
    have hfinite := h.parts a ha
    cases a with
    | string b => exact hfinite
    | double d => exact ⟨hfinite, hr.narrow d ha⟩
  have hnumber : ∀ (d : D) (x : Bytes), Plain d → doubleText d = some x → Number x (real d) := by
    intro d x hd hx
    obtain ⟨-, rfl⟩ := doubleText_eq hx
    exact (hreal.number d hd).1
  have hwidth : text.length ≤ kMaxPayload := hlength.trans_le hr.width
  have hdepth : (encodeTree s).depth ≤ 64 := s.written.depth.trans (by decide)
  have hnodes : (encodeTree s).nodes ≤ 1000000 := s.written.nodes.trans_le hr.nodes
  have hparse := parse_toString hnumber hreal.leaf ((s.written.clean _).mpr hplain) hdepth hnodes
    s.written.keys htext hwidth
  obtain ⟨s', hdecode, hequal⟩ := decodeTree_back hreal (SystemSnapshot.allPlain_iff.mp hplain) h
  exact ⟨text, htext, hnewline, hwidth, s', decode_ok.mpr ⟨_, hparse, hdecode⟩, hequal⟩

theorem faithful_iff {s : SystemSnapshot D} (h : s.Valid) : s.Faithful ↔ s.Replayable := by
  constructor
  · rintro ⟨text, htext, -, -, s', hdecode, -⟩
    exact replayable_of_decode h htext hdecode
  · exact faithful_of_replayable h

end WebHtop.Common
