import WebHtop.Common.Acceptance
import WebHtop.Server.Collectors.MetricsCollector

/-!
# Publishing a generation

`SharedState::Publish`: the texts of a generation are written once, before the store. The document
of `/metrics`, the frame of the stream and the document of `/processes` come from one snapshot.
-/

namespace WebHtop.Server

open WebHtop.Lib WebHtop.Common WebHtop.Common.JSONValue WebHtop.Server.Collectors

variable {D : Type} [Double D]

/-- One immutable generation, with its texts. -/
structure PublishedSnapshot (D : Type) where
  snapshot : SystemSnapshot D
  json : Bytes
  frame : Bytes
  processesJson : Bytes
  publishedAt : TimePoint
  encodeUs : UInt64

/-- The members that Publish adds to those of `process.ToJson()`. -/
def processesMembers (s : SystemSnapshot D) : List (Bytes × JSONValue D) := [
  (lit "sequence", .uint64 s.telemetry.sequence),
  (lit "instance_id", .string s.telemetry.instanceId),
  (lit "truncated", .bool s.telemetry.processesTruncated)]

/-- The tree of `/processes`. -/
def processesTree (s : SystemSnapshot D) : JSONValue D :=
  .object ((s.process.toJson.asObject.getD []) ++ processesMembers s)

/-- SharedState::Publish up to the store; `none` where it throws. The clock is read when Publish
begins and when the texts are written. -/
def publish (snapshot : SystemSnapshot D) (begin_ publishedAt : TimePoint) :
    Option (PublishedSnapshot D) := do
  let json ← encode snapshot
  let framed ← frame json
  let processesJson ← (processesTree snapshot).toString
  let microseconds := (publishedAt.val - begin_.val).tdiv 1000
  some
    { snapshot, json, frame := framed, processesJson, publishedAt
      encodeUs := UInt64.ofInt microseconds }

/-! ## The document of `/processes` -/

/-- The bytes of the process document, counted as those of the snapshot are. -/
def processesWidth (s : SystemSnapshot D) : Nat :=
  40 + s.process.width + intWidth s.telemetry.sequence.toNat + literalWidth s.telemetry.instanceId +
    boolWidth s.telemetry.processesTruncated

theorem processesTree_written (s : SystemSnapshot D) :
    Written (processesTree s) (s.process.parts ++ [.string s.telemetry.instanceId]) (processesWidth s)
      (8 + 10 * s.process.processes.length) 4 := by
  refine Written.cast (Written.object 107 (by rfl) (.cons (.uint64 _) (.cons (.uint64 _)
    (.cons (.uint64 _) (.cons (.rows ProcessInfo.written _) (.cons (.uint64 _)
    (.cons (.string _) (.cons (.bool _) .nil)))))))) ?_ ?_ ?_
  · intro P
    simp [ProcessMetrics.parts]
  · rw [processesWidth, ProcessMetrics.width]
    omega
  · omega

/-- The process document is part of the snapshot, up to the three members that are added. -/
theorem processesWidth_le (s : SystemSnapshot D) : processesWidth s ≤ s.width := by
  rw [processesWidth, SystemSnapshot.width, TelemetryInfo.width]
  omega

omit [Double D] in
theorem repaired_processesTree (s : SystemSnapshot D) :
    (processesTree s).repaired = processesTree s.repaired := by
  refine repaired_object rfl ?_
  simp [ProcessMetrics.toJson, asObject, processesMembers, SystemSnapshot.repaired,
    ProcessMetrics.repaired, TelemetryInfo.repaired, repaired_array ProcessInfo.repaired_toJson]

/-! ## Publish -/

variable [LawfulDouble D]

theorem processesTree_isSome {s : SystemSnapshot D} (h : ∀ d, Part.double d ∈ s.parts → Finite d) :
    ((processesTree s).toString).isSome = true := by
  refine (serializeTo_isSome_iff (processesTree s) (-1) 0).mpr ?_
  rw [repaired_processesTree, (processesTree_written s.repaired).clean]
  intro a ha
  rcases List.mem_append.mp ha with ha | ha
  · refine s.clean_repaired.mpr h a ?_
    exact List.mem_append_right _ ha
  · obtain rfl := List.mem_singleton.mp ha
    exact Utf8.wellFormed_repair _

omit [LawfulDouble D] in
theorem publish_eq {s : SystemSnapshot D} {begin_ publishedAt : TimePoint} {p : PublishedSnapshot D}
    (h : publish s begin_ publishedAt = some p) :
    p.snapshot = s ∧ encode s = some p.json ∧ frame p.json = some p.frame ∧
      (processesTree s).toString = some p.processesJson ∧ p.publishedAt = publishedAt := by
  simp only [publish, Option.bind_eq_bind, Option.bind_eq_some_iff] at h
  obtain ⟨json, hjson, framed, hframed, processesJson, hprocesses, hp⟩ := h
  obtain rfl := Option.some.inj hp
  exact ⟨rfl, hjson, hframed, hprocesses, rfl⟩

theorem encode_ne_nil {s : SystemSnapshot D} {json : Bytes} (h : encode s = some json) : json ≠ [] := by
  have hlength := (toString_compact h).1
  rw [s.written.width, SystemSnapshot.width] at hlength
  rintro rfl
  simp only [List.length_nil] at hlength
  omega

theorem validLength_of_frame {payload framed : Bytes} (h : frame payload = some framed) :
    validLength payload.length := by
  unfold frame at h
  split at h
  · cases h
  · rename_i hvalid
    rw [not_or] at hvalid
    exact ⟨List.length_pos_iff.mpr hvalid.1, Nat.le_of_not_lt hvalid.2⟩

/-- Publish throws for a double that is not finite and for a document over the payload limit. -/
theorem publish_isSome_iff {s : SystemSnapshot D} {begin_ publishedAt : TimePoint} :
    (publish s begin_ publishedAt).isSome = true ↔
      (∀ d, Part.double d ∈ s.parts → Finite d) ∧ s.width ≤ kMaxPayload := by
  constructor
  · intro h
    obtain ⟨p, hp⟩ := Option.isSome_iff_exists.mp h
    obtain ⟨-, hjson, hframed, -⟩ := publish_eq hp
    refine ⟨encode_isSome_iff.mp (Option.isSome_iff_exists.mpr ⟨_, hjson⟩), ?_⟩
    have hlength := (toString_compact hjson).1
    rw [s.written.width] at hlength
    exact hlength ▸ (validLength_of_frame hframed).2
  · rintro ⟨hfinite, hwidth⟩
    obtain ⟨json, hjson⟩ := Option.isSome_iff_exists.mp (encode_isSome_iff.mpr hfinite)
    obtain ⟨processesJson, hprocesses⟩ := Option.isSome_iff_exists.mp (processesTree_isSome hfinite)
    have hlength := (toString_compact hjson).1
    rw [s.written.width] at hlength
    have hvalid : validLength json.length :=
      ⟨List.length_pos_iff.mpr (encode_ne_nil hjson), hlength ▸ hwidth⟩
    obtain ⟨header, hframed, -⟩ := frame_spec hvalid
    simp [publish, hjson, hframed, hprocesses]

theorem length_processesJson {s : SystemSnapshot D} {json processesJson : Bytes}
    (hjson : encode s = some json) (hprocesses : (processesTree s).toString = some processesJson) :
    processesJson.length ≤ json.length := by
  rw [(toString_compact hjson).1, (toString_compact hprocesses).1, s.written.width,
    (processesTree_written s).width]
  exact processesWidth_le s

variable [PlainNotation D]

omit [PlainNotation D] in
theorem processes_back {real : D → JSONValue D} (hreal : Readback real) {s : SystemSnapshot D}
    (hp : ∀ a ∈ s.process.parts, a.Clean Plain) :
    (ProcessMetrics.fromJson (back real (processesTree s))).map LawfulDouble.val =
      s.process.map LawfulDouble.val := by
  have hlist : arrayOr (processesTree s) (lit "processes") = s.process.processes.map ProcessInfo.toJson :=
    rfl
  have hrows := rows_back (P := fun p : ProcessInfo D => ∀ a ∈ p.parts, a.Clean Plain)
    (fun p => ProcessInfo.fromJson_back hreal) s.process.processes
    fun p hmem a ha => hp a (List.mem_flatMap.mpr ⟨p, hmem, ha⟩)
  simp (disch := with_unfolding_all exact id rfl) only [ProcessMetrics.fromJson, ProcessMetrics.map,
    uintOr_back, arrayOr_back, hlist, hrows]
  rfl

/-- A client that accepts the document of a generation can read its process document, and finds the
same processes there under the same sequence. -/
theorem read_processes {s s' : SystemSnapshot D} {json processesJson : Bytes}
    (hjson : encode s = some json) (hprocesses : (processesTree s).toString = some processesJson)
    (hdecode : decode json = .ok s') :
    ∃ v : JSONValue D, parse processesJson = some v ∧
      (ProcessMetrics.fromJson v).map LawfulDouble.val = s'.process.map LawfulDouble.val ∧
      Access.uint v (lit "sequence") = some s'.telemetry.sequence ∧
      Access.text v (lit "instance_id") = s'.telemetry.instanceId ∧
      Access.boolean v (lit "truncated") = s'.telemetry.processesTruncated := by
  obtain ⟨real, hreal⟩ := exists_readback (D := D)
  obtain ⟨hparts, hreplayable, hequal⟩ := repaired_of_decode hjson hdecode
  obtain ⟨htelemetry, -, -, -, -, -, -, hprocess⟩ := SystemSnapshot.mk.inj hequal
  simp only [TelemetryInfo.map, TelemetryInfo.mk.injEq] at htelemetry
  obtain ⟨-, hsequence, -, -, -, -, -, -, -, htruncated, hinstance, -⟩ := htelemetry
  have hplain : ∀ a ∈ s.repaired.process.parts, a.Clean Plain := fun a ha =>
    hparts a (List.mem_append_right _ ha)
  have hlength := (length_processesJson hjson hprocesses).trans_eq (toString_compact hjson).1
  rw [s.written.width] at hlength
  have hnodes : 8 + 10 * s.repaired.process.processes.length ≤ s.repaired.nodes := by
    rw [SystemSnapshot.nodes, TelemetryInfo.nodes]
    omega
  rw [repaired_nodes] at hnodes
  have hinstanceClean : Part.Clean Plain (.string s.repaired.telemetry.instanceId : Common.Part D) :=
    Utf8.wellFormed_repair _
  have hparse := parse_written hreal (repaired_processesTree s) (processesTree_written s.repaired)
    (List.forall_mem_append.mpr ⟨hplain, List.forall_mem_singleton.mpr hinstanceClean⟩) (by decide)
    (hnodes.trans hreplayable.nodes) hprocesses (hlength.trans hreplayable.width)
  refine ⟨_, hparse, ?_, ?_, ?_, ?_⟩
  · rw [processes_back hreal hplain]
    exact hprocess.symm
  · rw [uint_back rfl rfl, hsequence]
    rfl
  · rw [text_back rfl rfl, hinstance]
    rfl
  · rw [boolean_back rfl rfl, htruncated]
    rfl

/-- Publish stores a generation exactly when its document can be written and framed. The frame then
carries the document and nothing else, the process document is no longer than it, and a client that
accepts the document is told the same processes under the same sequence by either route. -/
theorem publish_agrees (s : SystemSnapshot D) (begin_ publishedAt : TimePoint) :
    ((publish s begin_ publishedAt).isSome = true ↔
        (∀ d, Part.double d ∈ s.parts → Finite d) ∧ s.width ≤ kMaxPayload) ∧
      ∀ p, publish s begin_ publishedAt = some p →
        cut frontFrame p.frame = ([p.json], some []) ∧
        p.processesJson.length ≤ p.json.length ∧
        ∀ s' : SystemSnapshot D, decode p.json = .ok s' →
          ∃ v : JSONValue D, parse p.processesJson = some v ∧
            (ProcessMetrics.fromJson v).map LawfulDouble.val = s'.process.map LawfulDouble.val ∧
            Access.uint v (lit "sequence") = some s'.telemetry.sequence ∧
            Access.text v (lit "instance_id") = s'.telemetry.instanceId ∧
            Access.boolean v (lit "truncated") = s'.telemetry.processesTruncated := by
  refine ⟨publish_isSome_iff, fun p hp => ?_⟩
  obtain ⟨-, hjson, hframed, hprocesses, -⟩ := publish_eq hp
  have hvalid := validLength_of_frame hframed
  refine ⟨?_, length_processesJson hjson hprocesses, fun s' hdecode => ?_⟩
  · have hcut := cut_frame hvalid hframed []
    rw [List.append_nil] at hcut
    exact hcut
  · obtain ⟨v, hv, hread⟩ := read_processes hjson hprocesses hdecode
    exact ⟨v, hv, hread⟩

theorem publish_agrees_misnamed : ∃ p, publish misnamed ⟨0, by decide⟩ ⟨5000, by decide⟩ = some p ∧
    cut frontFrame p.frame = ([p.json], some []) ∧ p.processesJson.length ≤ p.json.length := by
  have hfinite : ∀ d, Part.double d ∈ misnamed.parts → Finite d := fun d hd => zero_misnamed hd ▸ rfl
  obtain ⟨hsome, hagrees⟩ := publish_agrees misnamed ⟨0, by decide⟩ ⟨5000, by decide⟩
  obtain ⟨p, hp⟩ := Option.isSome_iff_exists.mp (hsome.mpr ⟨hfinite, by decide +kernel⟩)
  obtain ⟨hcut, hlength, -⟩ := hagrees p hp
  exact ⟨p, hp, hcut, hlength⟩

end WebHtop.Server
