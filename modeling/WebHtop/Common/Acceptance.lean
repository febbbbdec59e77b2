import WebHtop.Common.Models.Repaired
import WebHtop.Common.Reread

/-!
# Which snapshots pass

`Decode` behind `Encode`, for a snapshot with any strings in it: the text of a snapshot is accepted
exactly when the repaired snapshot keeps the promises of an accepted one, no double is wide and the
text and its tree are within the limits of the parser. What comes back is the repaired snapshot.
-/

namespace WebHtop.Common

open WebHtop.Lib WebHtop.Lib.Json JSONValue

variable {D : Type} [Double D]

/-! ## Trees with any strings -/

theorem doubleText_isSome [LawfulDouble D] (d : D) : (doubleText d).isSome = true ↔ Finite d := by
  constructor
  · intro h
    obtain ⟨x, hx⟩ := Option.isSome_iff_exists.mp h
    exact (doubleText_eq hx).1
  · intro hf
    have hlength := LawfulDouble.length_toChars hf
    rw [doubleText, if_neg (by simp [hf]), if_neg (by omega)]
    rfl

/-- A tree is written when its doubles are finite, whatever its strings are. -/
theorem serializeTo_isSome_iff [LawfulDouble D] (v : JSONValue D) :
    ∀ indent level, (v.serializeTo indent level).isSome = true ↔ v.repaired.Clean Finite := by
  refine @JSONValue.rec D
    (fun v => ∀ indent level, (v.serializeTo indent level).isSome = true ↔ v.repaired.Clean Finite)
    (fun vs => ∀ indent level, (serializeItems indent level vs).isSome = true ↔
      CleanItems Finite (repairedItems vs))
    (fun ms => ∀ indent level, (serializeMembers indent level ms).isSome = true ↔
      CleanMembers Finite (repairedMembers ms))
    (fun m => ∀ indent level, (m.2.serializeTo indent level).isSome = true ↔
      m.2.repaired.Clean Finite)
    ?null ?bool ?int64 ?uint64 ?double ?string ?array ?object ?noItems ?items ?noMembers ?members
    ?member v
  case null => exact fun _ _ => iff_of_true rfl trivial
  case bool => exact fun _ _ _ => iff_of_true rfl trivial
  case int64 => exact fun _ _ _ => iff_of_true rfl trivial
  case uint64 => exact fun _ _ _ => iff_of_true rfl trivial
  case double => exact fun d _ _ => doubleText_isSome d
  case string => exact fun s _ _ => iff_of_true rfl (Utf8.wellFormed_repair s)
  case array =>
      intro vs ih indent level
      rw [repaired, Clean, ← ih indent level, serializeTo]
      cases vs with
      | nil => exact iff_of_true rfl rfl
      | cons v vs => cases h : serializeItems indent level (v :: vs) <;> simp
  case object =>
      intro ms ih indent level
      rw [repaired, Clean, ← ih indent level, serializeTo]
      cases ms with
      | nil => exact iff_of_true rfl rfl
      | cons m ms => cases h : serializeMembers indent level (m :: ms) <;> simp
  case noItems => exact fun _ _ => iff_of_true rfl trivial
  case items =>
      intro v vs hv hvs indent level
      rw [repairedItems, CleanItems, ← hv indent (level + 1), ← hvs indent level, serializeItems]
      cases v.serializeTo indent (level + 1) <;> cases serializeItems indent level vs <;> simp
  case noMembers => exact fun _ _ => iff_of_true rfl trivial
  case members =>
      intro m ms hm hms indent level
      rw [repairedMembers, CleanMembers, ← hm indent (level + 1), ← hms indent level,
        serializeMembers]
      have hkey := Utf8.wellFormed_repair m.1
      cases m.2.serializeTo indent (level + 1) <;> cases serializeMembers indent level ms <;>
        simp [hkey]
  case member => exact fun _ _ h => h

/-- Text that fits is read back as the repaired tree. -/
theorem parse_toString_repaired {real : D → JSONValue D} {P : D → Prop}
    (hreal : ∀ d x, P d → doubleText d = some x → Number x (real d))
    (hleaf : ∀ d, Leaf (real d)) {v r : JSONValue D} (hr : v.repaired = r) (hc : r.Clean P)
    (hd : r.depth ≤ 64) (hn : r.nodes ≤ 1000000) (hk : r.KeysWithin 4096) {indent : Int32} {x : Bytes}
    (hx : v.toString indent = some x) (hlength : x.length ≤ 8 * 1024 * 1024) :
    parse x = some (r.reread integer real) := by
  subst hr
  have htext := serializeTo_text (N := Number) (fun _ => intToString_number) hreal v indent 0 x hc hx []
  rw [List.append_nil] at htext
  obtain ⟨h1, h2, h3⟩ := reread_shape leaf_integer hleaf 4096 v.repaired
  exact parse_complete hlength ⟨x, [], .nil, htext, .nil⟩ (by omega) (by omega) (h3.mpr hk)

variable [LawfulDouble D]

/-- The doubles of a tree whose text is read are not wide, and the tree is not too large. -/
theorem plain_of_parse [PlainNotation D] {v r w : JSONValue D} (hr : v.repaired = r) {indent : Int32}
    {x : Bytes} (hx : v.toString indent = some x) (hw : parse x = some w) :
    r.Clean Plain ∧ r.nodes ≤ 1000000 := by
  subst hr
  have hfinite : v.repaired.Clean Finite :=
    (serializeTo_isSome_iff v indent 0).mp (Option.isSome_iff_exists.mpr ⟨x, hx⟩)
  have hwrites : ValueWrites (Spelled (D := D)) Finite integer .double v :=
    serializeTo_text (fun i _ _ => .inl ⟨i, rfl, rfl⟩) (fun d _ _ hd => .inr ⟨d, hd, rfl⟩) v
  have htext := hwrites indent 0 x hfinite hx []
  rw [List.append_nil] at htext
  obtain ⟨-, hread, -, hnodes, -⟩ := parse_sound hw
  have htwin := JsonText.twin numeric_spelled numeric_number ⟨x, [], .nil, htext, .nil⟩ hread
  have hshape := reread_shape (leaf_integer (D := D)) (fun d : D => (⟨rfl, rfl, fun _ => trivial⟩ :
    Leaf (JSONValue.double d))) 4096 v.repaired
  constructor
  · refine (clean_reread v.repaired).mp (htwin.clean ?_ ((clean_reread v.repaired).mpr hfinite))
    rintro y u u' (⟨i, -, rfl⟩ | ⟨d, hd, rfl⟩) hu' hu
    · unfold integer
      split
      · trivial
      · trivial
    · obtain ⟨hf, rfl⟩ := doubleText_eq hd
      exact ⟨hf, fun hwide => not_number_wide hf hwide u' hu'⟩
  · have hsame := htwin.nodes_eq (fun y u hu => ?_) (fun y u hu => hu.leaf.1.1)
    · rw [← hshape.1, hsame]
      exact hnodes
    · rcases hu with ⟨i, -, rfl⟩ | ⟨d, -, rfl⟩
      · exact (leaf_integer i).1
      · rfl

/-! ## Snapshots -/

/-- A row that has the values of a valid one, with finite doubles. -/
theorem ProcessInfo.Valid.congr {p q : ProcessInfo D} (h : p.Valid)
    (heq : p.map LawfulDouble.val = q.map LawfulDouble.val) (hf : ∀ a ∈ q.parts, a.Clean Finite) :
    q.Valid := by
  simp only [ProcessInfo.map, ProcessInfo.mk.injEq] at heq
  obtain ⟨-, -, hpid, -, hstate, hcpu, -, hmemory, -⟩ := heq
  have hfcpu : Finite q.cpuPercent := hf (.double q.cpuPercent) (by simp [ProcessInfo.parts])
  have hfmemory : Finite q.memoryPercent := hf (.double q.memoryPercent) (by simp [ProcessInfo.parts])
  exact ⟨hpid ▸ h.pid, hstate ▸ h.state, nonnegative_of_val hfcpu hcpu.symm h.cpu,
    nonnegative_of_val hfmemory hmemory.symm h.memory⟩

theorem ByteAccounting.congr {total available used total' available' used' : UInt64} {p p' : D}
    (h : ByteAccounting total available used p) (htotal : total = total')
    (havailable : available = available') (hused : used = used') (hf : Finite p')
    (hval : LawfulDouble.val p = LawfulDouble.val p') :
    ByteAccounting total' available' used' p' := by
  subst htotal havailable hused
  exact ⟨h.available_le, h.used_le, percentage_of_val hf hval.symm h.percent⟩

/-- Equal doubles of two lists. -/
theorem forall_percentage_congr {ds es : List D} (heq : ds.map LawfulDouble.val = es.map LawfulDouble.val)
    (h : ∀ d ∈ ds, Percentage d) (hf : ∀ e ∈ es, Finite e) : ∀ e ∈ es, Percentage e := by
  intro e he
  have hmem : LawfulDouble.val e ∈ ds.map LawfulDouble.val := heq ▸ List.mem_map_of_mem he
  obtain ⟨d, hd, hval⟩ := List.mem_map.mp hmem
  exact percentage_of_val (hf e he) hval.symm (h d hd)

/-- A snapshot that equals a valid one, with clean parts, is valid. -/
theorem SystemSnapshot.Valid.congr {s t : SystemSnapshot D} (h : s.Valid) (heq : s.Equal t)
    (hparts : ∀ a ∈ t.parts, a.Clean Finite) : t.Valid := by
  obtain ⟨htelemetry, -, hcpu, hmemory, hdisk, hnetwork, hloadavg, hprocess⟩ :=
    SystemSnapshot.mk.inj heq
  simp only [TelemetryInfo.map, TelemetryInfo.mk.injEq] at htelemetry
  simp only [CPUMetrics.map, CPUMetrics.mk.injEq] at hcpu
  simp only [MemoryMetrics.map, MemoryMetrics.mk.injEq] at hmemory
  simp only [DiskMetrics.map, DiskMetrics.mk.injEq] at hdisk
  simp only [NetworkMetrics.map, NetworkMetrics.mk.injEq] at hnetwork
  simp only [LoadavgMetrics.map, LoadavgMetrics.mk.injEq] at hloadavg
  simp only [ProcessMetrics.map, ProcessMetrics.mk.injEq] at hprocess
  simp only [SystemSnapshot.parts, List.forall_mem_append] at hparts
  obtain ⟨⟨⟨⟨⟨⟨-, hfcpu⟩, hfmemory⟩, hfdisk⟩, hfnetwork⟩, hfloadavg⟩, hfprocess⟩ := id hparts
  simp only [CPUMetrics.parts, List.forall_mem_cons, List.forall_mem_map] at hfcpu
  simp only [MemoryMetrics.parts, List.forall_mem_cons] at hfmemory
  simp only [DiskMetrics.parts, List.forall_mem_cons] at hfdisk
  simp only [NetworkMetrics.parts, List.forall_mem_cons] at hfnetwork
  simp only [LoadavgMetrics.parts, List.forall_mem_cons] at hfloadavg
  obtain ⟨-, hcores, htotal, husage, -⟩ := hcpu
  have hlength := congrArg List.length husage
  rw [List.length_map, List.length_map] at hlength
  have hrows : s.process.processes.length = t.process.processes.length := by
    simpa using congrArg List.length hprocess.2.2.2
  refine ⟨?_, ?_, hcores ▸ h.cores_le, ?_, percentage_of_val hfcpu.1 htotal.symm h.totalUsage,
    forall_percentage_congr husage h.coreUsage hfcpu.2.2,
    h.memory.congr hmemory.2.1 hmemory.2.2.1 hmemory.2.2.2.1 hfmemory.1 hmemory.2.2.2.2,
    h.disk.congr hdisk.2.1 hdisk.2.2.1 hdisk.2.2.2.1 hfdisk.1 hdisk.2.2.2.2,
    ⟨nonnegative_of_val hfnetwork.1 hnetwork.2.2.2.1.symm h.rates.1,
      nonnegative_of_val hfnetwork.2.1 hnetwork.2.2.2.2.symm h.rates.2⟩,
    ⟨nonnegative_of_val hfloadavg.1 hloadavg.2.1.symm h.loads.1,
      nonnegative_of_val hfloadavg.2.1 hloadavg.2.2.1.symm h.loads.2.1,
      nonnegative_of_val hfloadavg.2.2.1 hloadavg.2.2.2.symm h.loads.2.2⟩,
    hrows ▸ h.processes_le, ?_, by simpa only [SystemSnapshot.parts, List.forall_mem_append] using hparts⟩
  · obtain ⟨-, -, -, -, -, -, -, -, -, -, hid, -⟩ := htelemetry
    exact hid ▸ h.instanceId
  · exact htelemetry.1 ▸ h.interval
  · rw [← hcores, ← hlength]
    exact h.cores_eq
  · intro q hq
    have hmem : q.map LawfulDouble.val ∈ s.process.processes.map (ProcessInfo.map LawfulDouble.val) :=
      hprocess.2.2.2 ▸ List.mem_map_of_mem hq
    obtain ⟨p, hp, hpq⟩ := List.mem_map.mp hmem
    exact (h.processes p hp).congr hpq fun a ha => hfprocess a (List.mem_flatMap.mpr ⟨q, hq, ha⟩)

/-- `Encode` throws for a double that is not finite, and for nothing else. -/
theorem encode_isSome_iff {s : SystemSnapshot D} :
    (encode s).isSome = true ↔ ∀ d, Part.double d ∈ s.parts → Finite d := by
  have h := serializeTo_isSome_iff (encodeTree s) (-1) 0
  rw [repaired_encodeTree, s.repaired.written.clean, s.clean_repaired] at h
  exact h

omit [Double D] [LawfulDouble D] in
theorem repaired_nodes (s : SystemSnapshot D) : s.repaired.nodes = s.nodes := by
  simp [SystemSnapshot.nodes, TelemetryInfo.nodes, SystemSnapshot.repaired, TelemetryInfo.repaired,
    ProcessMetrics.repaired, CgroupMetrics.repaired]

variable [PlainNotation D]

/-- What a text that is read says of the snapshot that it was written from. -/
theorem replayable_of_parse {s : SystemSnapshot D} {text : Bytes} {w : JSONValue D}
    (htext : encode s = some text) (hw : parse text = some w) :
    s.Replayable ∧ ∀ a ∈ s.repaired.parts, a.Clean Plain := by
  obtain ⟨hclean, hnodes⟩ := plain_of_parse (repaired_encodeTree s) htext hw
  have hparts := (s.repaired.written.clean Plain).mp hclean
  refine ⟨⟨fun d hd => ((s.clean_repaired.mp hparts) d hd).2, ?_, ?_⟩, hparts⟩
  · obtain ⟨hlength, -⟩ := parse_sound hw
    have hwidth := (toString_compact htext).1
    rw [s.written.width] at hwidth
    exact hwidth ▸ hlength
  · rw [s.repaired.written.nodes, repaired_nodes] at hnodes
    exact hnodes

omit [PlainNotation D] in
/-- A text within the limits is read as the repaired tree, with its doubles read back. -/
theorem parse_written {real : D → JSONValue D} (hreal : Readback real) {v r : JSONValue D}
    {parts : List (Part D)} {width nodes depth : Nat} (hr : v.repaired = r)
    (hw : Written r parts width nodes depth) (hparts : ∀ a ∈ parts, a.Clean Plain) (hdepth : depth ≤ 64)
    (hnodes : nodes ≤ 1000000) {text : Bytes} (htext : v.toString = some text)
    (hlength : text.length ≤ 8 * 1024 * 1024) : parse text = some (back real r) := by
  have hnumber : ∀ (d : D) (x : Bytes), Plain d → doubleText d = some x → Number x (real d) := by
    intro d x hd hx
    obtain ⟨-, rfl⟩ := doubleText_eq hx
    exact (hreal.number d hd).1
  exact parse_toString_repaired hnumber hreal.leaf hr ((hw.clean _).mpr hparts) (hw.depth.trans hdepth)
    (hw.nodes.trans_le hnodes) hw.keys htext hlength

omit [PlainNotation D] in
/-- The text of a snapshot within the limits is read as the tree of the repaired one. -/
theorem parse_encode {s : SystemSnapshot D} (hr : s.Replayable)
    (hparts : ∀ a ∈ s.repaired.parts, a.Clean Plain) {real : D → JSONValue D} (hreal : Readback real)
    {text : Bytes} (htext : encode s = some text) :
    parse text = some (back real (encodeTree s.repaired)) := by
  have hlength := (toString_compact htext).1
  rw [s.written.width] at hlength
  refine parse_written hreal (repaired_encodeTree s) s.repaired.written hparts (by decide) ?_ htext
    (hlength.trans_le hr.width)
  rw [repaired_nodes]
  exact hr.nodes

/-- What Decode returns for the text of a snapshot is the repaired snapshot. -/
theorem repaired_of_decode {s s' : SystemSnapshot D} {text : Bytes} (htext : encode s = some text)
    (hdecode : decode text = .ok s') :
    (∀ a ∈ s.repaired.parts, a.Clean Plain) ∧ s.Replayable ∧ s'.Equal s.repaired := by
  obtain ⟨real, hreal⟩ := exists_readback (D := D)
  obtain ⟨v, hv, htree⟩ := decode_ok.mp hdecode
  obtain ⟨hr, hparts⟩ := replayable_of_parse htext hv
  obtain rfl := Option.some.inj (hv.symm.trans (parse_encode hr hparts hreal htext))
  obtain ⟨-, rfl, -⟩ := Decode.decodeTree_ok.mp htree
  exact ⟨hparts, hr, SystemSnapshot.fromJson_back hreal (SystemSnapshot.allPlain_iff.mp hparts)⟩

/-- A valid snapshot, as far as its strings can be kept, is accepted. -/
theorem decode_encode {s : SystemSnapshot D} (hvalid : s.repaired.Valid) (hr : s.Replayable) :
    ∃ text, ∃ s' : SystemSnapshot D, encode s = some text ∧ decode text = .ok s' := by
  obtain ⟨real, hreal⟩ := exists_readback (D := D)
  have hparts : ∀ a ∈ s.repaired.parts, a.Clean Plain :=
    s.clean_repaired.mpr fun d hd => ⟨s.clean_repaired.mp hvalid.parts d hd, hr.narrow d hd⟩
  obtain ⟨text, htext⟩ := Option.isSome_iff_exists.mp (encode_isSome_iff.mpr
    (s.clean_repaired.mp hvalid.parts))
  obtain ⟨s', hdecode, -⟩ := decodeTree_back hreal (SystemSnapshot.allPlain_iff.mp hparts) hvalid
  exact ⟨text, s', htext, decode_ok.mpr ⟨_, parse_encode hr hparts hreal htext, hdecode⟩⟩

/-- The repaired snapshot of an accepted text is valid. -/
theorem valid_repaired_of_decode {s s' : SystemSnapshot D} {text : Bytes} (htext : encode s = some text)
    (hdecode : decode text = .ok s') : s.repaired.Valid := by
  obtain ⟨hparts, -, hequal⟩ := repaired_of_decode htext hdecode
  refine (valid_of_decode hdecode).congr hequal fun a ha => ?_
  have hplain := hparts a ha
  cases a with
  | string b => exact hplain
  | double d => exact hplain.1

/-- For every snapshot, whatever its strings are: `Decode` accepts what `Encode` writes exactly when
the repaired snapshot is valid and the text fits, and then it returns the repaired snapshot. -/
theorem encode_decode (s : SystemSnapshot D) :
    ((∃ text, ∃ s' : SystemSnapshot D, encode s = some text ∧ decode text = .ok s') ↔
        s.repaired.Valid ∧ s.Replayable) ∧
      ∀ text s', encode s = some text → decode text = .ok s' → s'.Equal s.repaired := by
  refine ⟨⟨?_, fun h => decode_encode h.1 h.2⟩, fun text s' htext hdecode =>
    (repaired_of_decode htext hdecode).2.2⟩
  rintro ⟨text, s', htext, hdecode⟩
  exact ⟨valid_repaired_of_decode htext hdecode, (repaired_of_decode htext hdecode).2.1⟩

/-- A snapshot with a process whose name is a byte that is not UTF-8. -/
def misnamed : SystemSnapshot Integral :=
  { timestamp := 0
    cpu := default
    memory := default
    disk := default
    network := default
    loadavg := default
    process :=
      { (default : ProcessMetrics Integral) with
        processes :=
          [{ starttimeTicks := 7, cpuValid := false, pid := 1, name := [0xFF], state := 82
             cpuPercent := zero, memoryBytes := 0, memoryPercent := zero, threadCount := 1 }] }
    telemetry := { (default : TelemetryInfo Integral) with instanceId := lit "a", sequence := 1 } }

theorem zero_misnamed {d : Integral} (hd : Part.double d ∈ misnamed.parts) : d = zero := by
  have hparts : misnamed.parts =
      [.string (lit "a"), .string [], .string [], .string [], .string (lit "disabled"),
        .double zero, .double zero, .double zero, .double zero, .double zero, .double zero,
        .double zero, .double zero, .double zero, .string [0xFF], .double zero, .double zero] := rfl
  rw [hparts] at hd
  simpa using hd

theorem valid_misnamed : misnamed.repaired.Valid := by
  have hfinite : Finite (zero : Integral) := rfl
  have hval : LawfulDouble.val (zero : Integral) = 0 := LawfulDouble.val_ofInt64 (i := 0) (by decide)
  have hzero : Percentage (zero : Integral) := ⟨⟨hfinite, hval.ge⟩, by rw [hval]; norm_num⟩
  refine ⟨by decide, by decide, by decide, rfl, hzero, List.forall_mem_nil _,
    ⟨by decide, by decide, hzero⟩, ⟨by decide, by decide, hzero⟩,
    ⟨hzero.toNonnegative, hzero.toNonnegative⟩,
    ⟨hzero.toNonnegative, hzero.toNonnegative, hzero.toNonnegative⟩, by decide, ?_, ?_⟩
  · intro p hp
    obtain rfl := List.mem_singleton.mp hp
    exact ⟨by decide, by decide, hzero.toNonnegative, hzero.toNonnegative⟩
  · exact misnamed.clean_repaired.mpr fun d hd => zero_misnamed hd ▸ hfinite

theorem replayable_misnamed : misnamed.Replayable := by
  refine ⟨fun d hd hwide => ?_, by decide +kernel, by decide +kernel⟩
  have hval : LawfulDouble.val (zero : Integral) = 0 := LawfulDouble.val_ofInt64 (i := 0) (by decide)
  obtain rfl := zero_misnamed hd
  rcases hwide.1 with h | h <;> rw [hval] at h <;> norm_num at h

theorem encode_decode_misnamed :
    ∃ text, ∃ s' : SystemSnapshot Integral, encode misnamed = some text ∧ decode text = .ok s' ∧
      s'.process.processes.map ProcessInfo.name = [[0xC3, 0xBF]] := by
  obtain ⟨text, s', htext, hdecode⟩ :=
    (encode_decode misnamed).1.mpr ⟨valid_misnamed, replayable_misnamed⟩
  have hequal := (encode_decode misnamed).2 text s' htext hdecode
  refine ⟨text, s', htext, hdecode, ?_⟩
  have hnames := congrArg (fun t => t.process.processes.map ProcessInfo.name) hequal
  simp only [SystemSnapshot.map, ProcessMetrics.map, List.map_map] at hnames
  exact hnames

end WebHtop.Common
