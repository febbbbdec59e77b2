import WebHtop.Common.Json.Soundness
import WebHtop.Common.Json.RoundTrip
import WebHtop.Common.Validation

/-!
# Documents that mean the same

Optional fields may be added to a snapshot, and JSON objects have no order. A schema lists
the keys that Decode and the FromJson functions look up in each object; documents that
differ in the order of members and in members under other keys have one outcome. Lookup
takes the first member of a name, so this rests on the keys of an object being distinct.
-/

namespace WebHtop.Common

open JSONValue

/-- The keys that are looked up in an object, each with what is looked up below it, and what
is looked up in the elements of an array. -/
inductive Schema where
  | mk (fields : List (Bytes × Schema)) (item : Option Schema)

namespace Schema

/-- Nothing is looked up. -/
def leaf : Schema := .mk [] none

def object (scalars : List Bytes) (nested : List (Bytes × Schema)) : Schema :=
  .mk (scalars.map (fun key => (key, leaf)) ++ nested) none

def array (item : Schema) : Schema := .mk [] (some item)

def keys : Schema → List Bytes
  | .mk fields _ => fields.map Prod.fst

/-- What is looked up below a key. -/
def under (key : Bytes) : Schema → Schema
  | .mk fields _ => ((fields.find? fun f => f.1 == key).map Prod.snd).getD leaf

def item : Schema → Schema
  | .mk _ item => item.getD leaf

end Schema

variable {D : Type}

mutual

/-- Trees that differ in the order of members, and in members under keys that the schema
does not list. -/
inductive Alike : Schema → JSONValue D → JSONValue D → Prop
  | same (σ : Schema) (v : JSONValue D) : Alike σ v v
  | array {σ : Schema} {vs vs' : List (JSONValue D)} :
      AlikeItems σ.item vs vs' → Alike σ (.array vs) (.array vs')
  | object {σ : Schema} {ms ms' core core' extra extra' : List (Bytes × JSONValue D)} :
      ms.Perm (core ++ extra) → ms'.Perm (core' ++ extra') → AlikeMembers σ core core' →
      (∀ m ∈ extra ++ extra', m.1 ∉ σ.keys) → Alike σ (.object ms) (.object ms')

inductive AlikeItems : Schema → List (JSONValue D) → List (JSONValue D) → Prop
  | nil {σ : Schema} : AlikeItems σ [] []
  | cons {σ : Schema} {v v' : JSONValue D} {vs vs' : List (JSONValue D)} :
      Alike σ v v' → AlikeItems σ vs vs' → AlikeItems σ (v :: vs) (v' :: vs')

inductive AlikeMembers :
    Schema → List (Bytes × JSONValue D) → List (Bytes × JSONValue D) → Prop
  | nil {σ : Schema} : AlikeMembers σ [] []
  | cons {σ : Schema} {key : Bytes} {v v' : JSONValue D} {ms ms' : List (Bytes × JSONValue D)} :
      Alike (σ.under key) v v' → AlikeMembers σ ms ms' →
      AlikeMembers σ ((key, v) :: ms) ((key, v') :: ms')

end

/-! ## Lookups -/

section

variable {σ : Schema} {n : Nat} {ms core core' : List (Bytes × JSONValue D)} {key : Bytes}
  {v v' : JSONValue D}

/-- With distinct keys the first member of a name is the only one. -/
theorem lookup_eq_some (hn : (ms.map Prod.fst).Nodup) :
    lookup ms key = some v ↔ (key, v) ∈ ms := by
  constructor
  · intro h
    obtain ⟨m, hm, rfl⟩ := Option.map_eq_some_iff.mp h
    have hkey : m.1 = key := by simpa using List.find?_some hm
    exact hkey ▸ List.mem_of_find?_eq_some hm
  · intro h
    have hsome : (ms.find? fun m => m.1 == key).isSome = true :=
      List.find?_isSome.mpr ⟨_, h, by simp⟩
    obtain ⟨m, hm⟩ := Option.isSome_iff_exists.mp hsome
    have hkey : m.1 = key := by simpa using List.find?_some hm
    have heq : m = (key, v) := List.inj_on_of_nodup_map hn (List.mem_of_find?_eq_some hm) h hkey
    rw [lookup, hm, heq]
    rfl

theorem keysWithinItems_iff {vs : List (JSONValue D)} :
    KeysWithinItems n vs ↔ ∀ v ∈ vs, v.KeysWithin n := by
  induction vs with
  | nil => simp [KeysWithinItems]
  | cons v vs ih => simp [KeysWithinItems, ih]

theorem keysWithinMembers_iff : KeysWithinMembers n ms ↔ ∀ m ∈ ms, m.2.KeysWithin n := by
  induction ms with
  | nil => simp [KeysWithinMembers]
  | cons m ms ih => simp [KeysWithinMembers, ih]

theorem AlikeMembers.left (h : AlikeMembers σ core core') (hv : (key, v) ∈ core) :
    ∃ v', (key, v') ∈ core' ∧ Alike (σ.under key) v v' := by
  induction core generalizing core' with
  | nil => cases hv
  | cons m core ih =>
      cases h with
      | cons hm hrest =>
          rcases List.mem_cons.mp hv with heq | hv
          · obtain ⟨rfl, rfl⟩ := Prod.mk.inj heq
            exact ⟨_, List.mem_cons_self, hm⟩
          · obtain ⟨v', hv', ha⟩ := ih hrest hv
            exact ⟨v', List.mem_cons_of_mem _ hv', ha⟩

theorem AlikeMembers.right (h : AlikeMembers σ core core') (hv : (key, v') ∈ core') :
    ∃ v, (key, v) ∈ core := by
  induction core generalizing core' with
  | nil =>
      cases h
      cases hv
  | cons m core ih =>
      cases h with
      | cons hm hrest =>
          rcases List.mem_cons.mp hv with heq | hv
          · obtain ⟨rfl, rfl⟩ := Prod.mk.inj heq
            exact ⟨_, List.mem_cons_self⟩
          · obtain ⟨v, hv⟩ := ih hrest hv
            exact ⟨v, List.mem_cons_of_mem _ hv⟩

/-- Trees that are alike, with distinct keys throughout. -/
structure Agree (σ : Schema) (v v' : JSONValue D) : Prop where
  alike : Alike σ v v'
  keys : v.KeysWithin 4096
  keys' : v'.KeysWithin 4096

/-- A member that the schema lists is there in both or in neither. -/
theorem Agree.fields (h : Agree σ v v') (hk : key ∈ σ.keys) :
    (v.field key = none ∧ v'.field key = none) ∨
      ∃ w w', v.field key = some w ∧ v'.field key = some w' ∧ Agree (σ.under key) w w' := by
  obtain ⟨ha, hv, hv'⟩ := h
  cases ha with
  | same =>
      cases hf : v.field key with
      | none => exact .inl ⟨rfl, rfl⟩
      | some w =>
          cases v with
          | object ms =>
              have hw : w.KeysWithin 4096 :=
                keysWithinMembers_iff.mp hv.2.2 _ ((lookup_eq_some hv.1).mp hf)
              exact .inr ⟨w, w, rfl, rfl, .same _ w, hw, hw⟩
          | _ => cases hf
  | array => exact .inl ⟨rfl, rfl⟩
  | @object _ ms ms' core core' extra extra' hp hp' hcore hextra =>
      have hmem : ∀ {w}, lookup ms key = some w ↔ (key, w) ∈ core := by
        intro w
        rw [lookup_eq_some hv.1, hp.mem_iff, List.mem_append, or_iff_left]
        exact fun hw => hextra _ (List.mem_append_left _ hw) hk
      have hmem' : ∀ {w}, lookup ms' key = some w ↔ (key, w) ∈ core' := by
        intro w
        rw [lookup_eq_some hv'.1, hp'.mem_iff, List.mem_append, or_iff_left]
        exact fun hw => hextra _ (List.mem_append_right _ hw) hk
      simp only [JSONValue.field]
      cases hf : lookup ms key with
      | none =>
          refine .inl ⟨rfl, Option.eq_none_iff_forall_ne_some.mpr fun w' hf' => ?_⟩
          obtain ⟨w, hw⟩ := hcore.right (hmem'.mp hf')
          rw [hmem.mpr hw] at hf
          cases hf
      | some w =>
          obtain ⟨w', hw', halike⟩ := hcore.left (hmem.mp hf)
          have hf' := hmem'.mpr hw'
          exact .inr ⟨w, w', rfl, hf', halike,
            keysWithinMembers_iff.mp hv.2.2 _ ((lookup_eq_some hv.1).mp hf),
            keysWithinMembers_iff.mp hv'.2.2 _ ((lookup_eq_some hv'.1).mp hf')⟩

/-- The elements of an array agree one by one. -/
theorem Agree.items (h : Agree σ v v') :
    List.Forall₂ (Agree σ.item) (v.asArray.getD []) (v'.asArray.getD []) := by
  obtain ⟨ha, hv, hv'⟩ := h
  cases ha with
  | same =>
      refine List.forall₂_same.mpr fun w hw => ?_
      cases v with
      | array vs =>
          have := keysWithinItems_iff.mp hv w hw
          exact ⟨.same _ w, this, this⟩
      | _ => cases hw
  | @array _ vs vs' hitems =>
      simp only [asArray, Option.getD_some]
      have hkeys := keysWithinItems_iff.mp hv
      have hkeys' := keysWithinItems_iff.mp hv'
      clear hv hv'
      induction vs generalizing vs' with
      | nil =>
          cases hitems
          exact .nil
      | cons w vs ih =>
          cases hitems with
          | cons hw hrest =>
              rw [List.forall_mem_cons] at hkeys hkeys'
              exact .cons ⟨hw, hkeys.1, hkeys'.1⟩ (ih hrest hkeys.2 hkeys'.2)
  | object => exact .nil

end

/-! ## Readings that agree -/

namespace Agree

variable [Double D] {σ : Schema} {v v' : JSONValue D} {key : Bytes}

omit [Double D] in
/-- What a value is by itself does not depend on the order of its members. -/
theorem scalar {α : Type} {f : JSONValue D → α}
    (harray : ∀ vs vs' : List (JSONValue D), vs.length = vs'.length → f (.array vs) = f (.array vs'))
    (hobject : ∀ ms ms', f (.object ms) = f (.object ms')) (h : Agree σ v v') : f v = f v' := by
  have hitems := h.items
  cases h.alike with
  | same => rfl
  | array => exact harray _ _ hitems.length_eq
  | object => exact hobject _ _

omit [Double D] in
/-- A field that the schema lists, read by `f`. -/
theorem reads {α : Type} {f : JSONValue D → Option α}
    (hf : ∀ {w w' : JSONValue D}, Agree (σ.under key) w w' → f w = f w') (h : Agree σ v v')
    (hk : key ∈ σ.keys) : (v.field key).bind f = (v'.field key).bind f := by
  obtain ⟨hl, hr⟩ | ⟨w, w', hl, hr, hw⟩ := h.fields hk
  · rw [hl, hr]
  · rw [hl, hr]
    exact hf hw

omit [Double D] in
theorem uint (h : Agree σ v v') (hk : key ∈ σ.keys) : Access.uint v key = Access.uint v' key :=
  h.reads (scalar (fun _ _ _ => rfl) fun _ _ => rfl) hk

theorem number (h : Agree σ v v') (hk : key ∈ σ.keys) :
    Access.number v key = Access.number v' key := by
  have hread := h.reads (f := asDouble) (scalar (fun _ _ _ => rfl) fun _ _ => rfl) hk
  rw [Access.number, Access.number, hread]

omit [Double D] in
theorem text (h : Agree σ v v') (hk : key ∈ σ.keys) : Access.text v key = Access.text v' key := by
  have hread := h.reads (f := asString) (scalar (fun _ _ _ => rfl) fun _ _ => rfl) hk
  rw [Access.text, Access.text, hread]

omit [Double D] in
theorem boolean (h : Agree σ v v') (hk : key ∈ σ.keys) :
    Access.boolean v key = Access.boolean v' key := by
  have hread := h.reads (f := asBool) (scalar (fun _ _ _ => rfl) fun _ _ => rfl) hk
  rw [Access.boolean, Access.boolean, hread]

omit [Double D] in
theorem uintOr (h : Agree σ v v') (hk : key ∈ σ.keys) (default : UInt64) :
    uintOr v key default = Common.uintOr v' key default := by
  rw [Common.uintOr, Common.uintOr, h.uint hk]

theorem doubleOr (h : Agree σ v v') (hk : key ∈ σ.keys) : doubleOr v key = Common.doubleOr v' key := by
  have hread := h.reads (f := asDouble) (scalar (fun _ _ _ => rfl) fun _ _ => rfl) hk
  rw [Common.doubleOr, Common.doubleOr, hread]

omit [Double D] in
theorem int64At (h : Agree σ v v') (hk : key ∈ σ.keys) : int64At v key = Common.int64At v' key :=
  h.reads (scalar (fun _ _ _ => rfl) fun _ _ => rfl) hk

omit [Double D] in
theorem arrayOr {τ : Schema} (h : Agree σ v v') (hk : key ∈ σ.keys) (hτ : (σ.under key).item = τ) :
    List.Forall₂ (Agree τ) (arrayOr v key) (Common.arrayOr v' key) := by
  subst hτ
  unfold Common.arrayOr
  obtain ⟨hl, hr⟩ | ⟨w, w', hl, hr, hw⟩ := h.fields hk
  · rw [hl, hr]
    exact .nil
  · rw [hl, hr]
    exact hw.items

omit [Double D] in
theorem deref {τ : Schema} (h : Agree σ v v') (hk : key ∈ σ.keys) (hτ : σ.under key = τ) :
    Agree τ (Decode.deref v key) (Decode.deref v' key) := by
  subst hτ
  unfold Decode.deref
  obtain ⟨hl, hr⟩ | ⟨w, w', hl, hr, hw⟩ := h.fields hk
  · rw [hl, hr]
    exact ⟨.same _ _, by simp [KeysWithin], by simp [KeysWithin]⟩
  · rw [hl, hr]
    exact hw

omit [Double D] in
/-- A test of a field that the schema lists. -/
theorem any {p : JSONValue D → Bool}
    (hp : ∀ {w w' : JSONValue D}, Agree (σ.under key) w w' → p w = p w') (h : Agree σ v v')
    (hk : key ∈ σ.keys) : (v.field key).any p = (v'.field key).any p := by
  obtain ⟨hl, hr⟩ | ⟨w, w', hl, hr, hw⟩ := h.fields hk
  · rw [hl, hr]
  · rw [hl, hr]
    exact hp hw

omit [Double D] in
/-- A section that the schema lists. -/
theorem map {α : Type} {τ : Schema} {f : JSONValue D → α}
    (hf : ∀ {w w' : JSONValue D}, Agree τ w w' → f w = f w') (h : Agree σ v v')
    (hk : key ∈ σ.keys) (hτ : σ.under key = τ) : (v.field key).map f = (v'.field key).map f := by
  subst hτ
  obtain ⟨hl, hr⟩ | ⟨w, w', hl, hr, hw⟩ := h.fields hk
  · rw [hl, hr]
  · rw [hl, hr, Option.map_some, Option.map_some, hf hw]

omit [Double D] in
theorem map_eq {α : Type} {f : JSONValue D → α} {vs vs' : List (JSONValue D)}
    (hf : ∀ {w w' : JSONValue D}, Agree σ w w' → f w = f w') (h : List.Forall₂ (Agree σ) vs vs') :
    vs.map f = vs'.map f := by
  induction h with
  | nil => rfl
  | cons hw _ ih => rw [List.map_cons, List.map_cons, hf hw, ih]

omit [Double D] in
theorem filterMap_eq {α : Type} {f : JSONValue D → Option α} {vs vs' : List (JSONValue D)}
    (hf : ∀ {w w' : JSONValue D}, Agree σ w w' → f w = f w') (h : List.Forall₂ (Agree σ) vs vs') :
    vs.filterMap f = vs'.filterMap f := by
  induction h with
  | nil => rfl
  | cons hw _ ih => rw [List.filterMap_cons, List.filterMap_cons, hf hw, ih]

end Agree

/-! ## The lookups of the models -/

variable [Double D] {v v' : JSONValue D}

namespace CPUMetrics

def schema : Schema :=
  .object [lit "timestamp", lit "core_count", lit "total_usage_percent", lit "frequency_mhz",
    lit "per_core_usage_percent"] []

theorem fromJson_agree (h : Agree schema v v') : fromJson v = fromJson v' := by
  have hcores : (arrayOr v (lit "per_core_usage_percent")).filterMap asDouble =
      (arrayOr v' (lit "per_core_usage_percent")).filterMap asDouble :=
    Agree.filterMap_eq (Agree.scalar (fun _ _ _ => rfl) fun _ _ => rfl)
      (h.arrayOr (by simp [schema, Schema.object, Schema.keys]) rfl)
  simp (disch := simp [schema, Schema.object, Schema.keys]) only [fromJson, h.uintOr, h.doubleOr,
    hcores]

end CPUMetrics

namespace MemoryMetrics

def schema : Schema :=
  .object [lit "timestamp", lit "total_bytes", lit "available_bytes", lit "used_bytes",
    lit "used_percent"] []

theorem fromJson_agree (h : Agree schema v v') : fromJson v = fromJson v' := by
  simp (disch := simp [schema, Schema.object, Schema.keys]) only [fromJson, h.uintOr, h.doubleOr]

end MemoryMetrics

namespace DiskMetrics

def schema : Schema :=
  .object [lit "timestamp", lit "total_bytes", lit "available_bytes", lit "used_bytes",
    lit "used_percent"] []

theorem fromJson_agree (h : Agree schema v v') : fromJson v = fromJson v' := by
  simp (disch := simp [schema, Schema.object, Schema.keys]) only [fromJson, h.uintOr, h.doubleOr]

end DiskMetrics

namespace NetworkMetrics

def schema : Schema :=
  .object [lit "timestamp", lit "rx_bytes_total", lit "tx_bytes_total", lit "rx_kbps",
    lit "tx_kbps"] []

theorem fromJson_agree (h : Agree schema v v') : fromJson v = fromJson v' := by
  simp (disch := simp [schema, Schema.object, Schema.keys]) only [fromJson, h.uintOr, h.doubleOr]

end NetworkMetrics

namespace LoadavgMetrics

def schema : Schema :=
  .object [lit "timestamp", lit "load_1m", lit "load_5m", lit "load_15m"] []

theorem fromJson_agree (h : Agree schema v v') : fromJson v = fromJson v' := by
  simp (disch := simp [schema, Schema.object, Schema.keys]) only [fromJson, h.uintOr, h.doubleOr]

end LoadavgMetrics

namespace ProcessInfo

def schema : Schema :=
  .object [lit "starttime_ticks", lit "cpu_valid", lit "pid", lit "name", lit "state",
    lit "cpu_percent", lit "memory_bytes", lit "memory_percent", lit "thread_count"] []

theorem fromJson_agree (h : Agree schema v v') : fromJson v = fromJson v' := by
  simp (disch := simp [schema, Schema.object, Schema.keys]) only [fromJson, h.uintOr, h.doubleOr,
    h.boolean, h.int64At, h.text]

end ProcessInfo

namespace ProcessMetrics

def schema : Schema :=
  .object [lit "timestamp", lit "total_processes", lit "running_processes"]
    [(lit "processes", .array ProcessInfo.schema)]

omit [Double D] in
theorem rows_agree (h : Agree schema v v') :
    List.Forall₂ (Agree ProcessInfo.schema) (arrayOr v (lit "processes"))
      (arrayOr v' (lit "processes")) :=
  h.arrayOr (by simp [schema, Schema.object, Schema.keys]) rfl

theorem fromJson_agree (h : Agree schema v v') : fromJson v = fromJson v' := by
  have hrows := Agree.map_eq ProcessInfo.fromJson_agree (rows_agree h)
  simp (disch := simp [schema, Schema.object, Schema.keys]) only [fromJson, h.uintOr, hrows]

end ProcessMetrics

namespace SampleStatus

def schema : Schema := .object [lit "name", lit "state", lit "error", lit "duration_us"] []

omit [Double D] in
theorem fromJson_agree (h : Agree schema v v') : fromJson v = fromJson v' := by
  simp (disch := simp [schema, Schema.object, Schema.keys]) only [fromJson, h.uintOr, h.text]

end SampleStatus

namespace InterfaceMetrics

def schema : Schema :=
  .object [lit "name", lit "rx_bytes", lit "tx_bytes", lit "rx_errors", lit "tx_errors",
    lit "rx_dropped", lit "tx_dropped", lit "rx_bytes_per_second", lit "tx_bytes_per_second"] []

theorem fromJson_agree (h : Agree schema v v') : fromJson v = fromJson v' := by
  simp (disch := simp [schema, Schema.object, Schema.keys]) only [fromJson, h.uintOr, h.text,
    h.number]

end InterfaceMetrics

namespace DiskIoMetrics

def schema : Schema :=
  .object [lit "device", lit "read_bytes_per_second", lit "write_bytes_per_second", lit "iops",
    lit "busy_percent"] []

theorem fromJson_agree (h : Agree schema v v') : fromJson v = fromJson v' := by
  simp (disch := simp [schema, Schema.object, Schema.keys]) only [fromJson, h.text, h.number]

end DiskIoMetrics

namespace PressureMetrics

def schema : Schema :=
  .object [lit "resource", lit "some_avg10", lit "some_avg60", lit "some_avg300",
    lit "full_avg10"] []

theorem fromJson_agree (h : Agree schema v v') : fromJson v = fromJson v' := by
  simp (disch := simp [schema, Schema.object, Schema.keys]) only [fromJson, h.text, h.number]

end PressureMetrics

namespace CgroupMetrics

def schema : Schema :=
  .object [lit "path", lit "state", lit "memory_current", lit "memory_max", lit "memory_unlimited",
    lit "cpu_unlimited", lit "cpu_quota_cores", lit "cpu_percent", lit "nr_throttled",
    lit "oom_kill", lit "throttled_ms_per_second"]
    [(lit "pressure", .array PressureMetrics.schema)]

theorem fromJson_agree (h : Agree schema v v') : fromJson v = fromJson v' := by
  have hpressure : (arrayOr v (lit "pressure")).map PressureMetrics.fromJson =
      (arrayOr v' (lit "pressure")).map PressureMetrics.fromJson :=
    Agree.map_eq PressureMetrics.fromJson_agree
      (h.arrayOr (by simp [schema, Schema.object, Schema.keys]) rfl)
  simp (disch := simp [schema, Schema.object, Schema.keys]) only [fromJson, h.uint, h.text,
    h.number, h.boolean, hpressure]

end CgroupMetrics

namespace TelemetryInfo

def schema : Schema :=
  .object [lit "interval_ms", lit "sequence", lit "instance_id", lit "boot_id", lit "hostname",
    lit "collection_started_at", lit "collection_finished_at", lit "collection_us",
    lit "skipped_ticks", lit "process_denied", lit "process_vanished", lit "process_malformed",
    lit "processes_truncated", lit "cpu_ids"]
    [(lit "collectors", .array SampleStatus.schema),
      (lit "interfaces", .array InterfaceMetrics.schema),
      (lit "disks", .array DiskIoMetrics.schema),
      (lit "pressure", .array PressureMetrics.schema),
      (lit "cgroup", CgroupMetrics.schema)]

theorem fromJson_agree (h : Agree schema v v') : fromJson v = fromJson v' := by
  have hids : (arrayOr v (lit "cpu_ids")).filterMap cpuId =
      (arrayOr v' (lit "cpu_ids")).filterMap cpuId :=
    Agree.filterMap_eq (Agree.scalar (fun _ _ _ => rfl) fun _ _ => rfl)
      (h.arrayOr (by simp [schema, Schema.object, Schema.keys]) rfl)
  have hcollectors : (arrayOr v (lit "collectors")).map SampleStatus.fromJson =
      (arrayOr v' (lit "collectors")).map SampleStatus.fromJson :=
    Agree.map_eq SampleStatus.fromJson_agree
      (h.arrayOr (by simp [schema, Schema.object, Schema.keys]) rfl)
  have hinterfaces : (arrayOr v (lit "interfaces")).map InterfaceMetrics.fromJson =
      (arrayOr v' (lit "interfaces")).map InterfaceMetrics.fromJson :=
    Agree.map_eq InterfaceMetrics.fromJson_agree
      (h.arrayOr (by simp [schema, Schema.object, Schema.keys]) rfl)
  have hdisks : (arrayOr v (lit "disks")).map DiskIoMetrics.fromJson =
      (arrayOr v' (lit "disks")).map DiskIoMetrics.fromJson :=
    Agree.map_eq DiskIoMetrics.fromJson_agree
      (h.arrayOr (by simp [schema, Schema.object, Schema.keys]) rfl)
  have hpressure : (arrayOr v (lit "pressure")).map PressureMetrics.fromJson =
      (arrayOr v' (lit "pressure")).map PressureMetrics.fromJson :=
    Agree.map_eq PressureMetrics.fromJson_agree
      (h.arrayOr (by simp [schema, Schema.object, Schema.keys]) rfl)
  have hcgroup : (v.field (lit "cgroup")).map CgroupMetrics.fromJson =
      (v'.field (lit "cgroup")).map CgroupMetrics.fromJson :=
    h.map CgroupMetrics.fromJson_agree (by simp [schema, Schema.object, Schema.keys]) rfl
  simp (disch := simp [schema, Schema.object, Schema.keys]) only [fromJson, h.uintOr, h.text,
    h.boolean, hids, hcollectors, hinterfaces, hdisks, hpressure, hcgroup]

end TelemetryInfo

namespace SystemSnapshot

/-- Everything that is looked up in a document. -/
def schema : Schema :=
  .object [lit "protocol_version", lit "type", lit "timestamp"]
    [(lit "telemetry", TelemetryInfo.schema), (lit "cpu", CPUMetrics.schema),
      (lit "memory", MemoryMetrics.schema), (lit "disk", DiskMetrics.schema),
      (lit "network", NetworkMetrics.schema), (lit "loadavg", LoadavgMetrics.schema),
      (lit "process", ProcessMetrics.schema)]

theorem fromJson_agree (h : Agree schema v v') : fromJson v = fromJson v' := by
  have htelemetry : (v.field (lit "telemetry")).map TelemetryInfo.fromJson =
      (v'.field (lit "telemetry")).map TelemetryInfo.fromJson :=
    h.map TelemetryInfo.fromJson_agree (by simp [schema, Schema.object, Schema.keys]) rfl
  have hcpu : (v.field (lit "cpu")).map CPUMetrics.fromJson =
      (v'.field (lit "cpu")).map CPUMetrics.fromJson :=
    h.map CPUMetrics.fromJson_agree (by simp [schema, Schema.object, Schema.keys]) rfl
  have hmemory : (v.field (lit "memory")).map MemoryMetrics.fromJson =
      (v'.field (lit "memory")).map MemoryMetrics.fromJson :=
    h.map MemoryMetrics.fromJson_agree (by simp [schema, Schema.object, Schema.keys]) rfl
  have hdisk : (v.field (lit "disk")).map DiskMetrics.fromJson =
      (v'.field (lit "disk")).map DiskMetrics.fromJson :=
    h.map DiskMetrics.fromJson_agree (by simp [schema, Schema.object, Schema.keys]) rfl
  have hnetwork : (v.field (lit "network")).map NetworkMetrics.fromJson =
      (v'.field (lit "network")).map NetworkMetrics.fromJson :=
    h.map NetworkMetrics.fromJson_agree (by simp [schema, Schema.object, Schema.keys]) rfl
  have hloadavg : (v.field (lit "loadavg")).map LoadavgMetrics.fromJson =
      (v'.field (lit "loadavg")).map LoadavgMetrics.fromJson :=
    h.map LoadavgMetrics.fromJson_agree (by simp [schema, Schema.object, Schema.keys]) rfl
  have hprocess : (v.field (lit "process")).map ProcessMetrics.fromJson =
      (v'.field (lit "process")).map ProcessMetrics.fromJson :=
    h.map ProcessMetrics.fromJson_agree (by simp [schema, Schema.object, Schema.keys]) rfl
  simp (disch := simp [schema, Schema.object, Schema.keys]) only [fromJson, h.uintOr, htelemetry,
    hcpu, hmemory, hdisk, hnetwork, hloadavg, hprocess]

end SystemSnapshot

/-! ## The lookups of the checks -/

namespace Decode

theorem forEach_congr {α : Type} {check check' : α → Except Bytes Unit} {as : List α}
    (h : ∀ a ∈ as, check a = check' a) : forEach check as = forEach check' as := by
  induction as with
  | nil => rfl
  | cons a as ih =>
      rw [List.forall_mem_cons] at h
      rw [forEach, forEach, h.1, ih h.2]

omit [Double D] in
theorem forEach_agree {σ : Schema} {check : JSONValue D → Except Bytes Unit}
    (hc : ∀ {w w' : JSONValue D}, Agree σ w w' → check w = check w') {vs vs' : List (JSONValue D)}
    (h : List.Forall₂ (Agree σ) vs vs') : forEach check vs = forEach check vs' := by
  induction h with
  | nil => rfl
  | cons hw _ ih => rw [forEach, forEach, hc hw, ih]

omit [Double D] in
theorem checkObject_agree (h : Agree SystemSnapshot.schema v v') {key : Bytes}
    (hk : key ∈ SystemSnapshot.schema.keys) : checkObject v key = checkObject v' key := by
  rw [checkObject, checkObject,
    h.any (Agree.scalar (f := isObject) (fun _ _ _ => rfl) fun _ _ => rfl) hk]

omit [Double D] in
theorem checkTimestamp_agree (h : Agree SystemSnapshot.schema v v') {key : Bytes}
    (hk : key ∈ SystemSnapshot.schema.keys)
    (ht : lit "timestamp" ∈ (SystemSnapshot.schema.under key).keys) :
    checkTimestamp v key = checkTimestamp v' key := by
  rw [checkTimestamp, checkTimestamp, (h.deref hk rfl).uint ht]

omit [Double D] in
theorem checkTopology_agree (h : Agree CPUMetrics.schema v v') :
    checkTopology v = checkTopology v' := by
  have harray : ∀ n : Nat, ((v.field (lit "per_core_usage_percent")).any fun perCore =>
        perCore.isArray ∧ perCore.size = n) =
      (v'.field (lit "per_core_usage_percent")).any fun perCore =>
        perCore.isArray ∧ perCore.size = n := by
    intro n
    refine h.any (Agree.scalar (f := fun perCore : JSONValue D =>
      decide (perCore.isArray = true ∧ perCore.size = n)) (fun vs vs' hlength => ?_) ?_) (by decide)
    · simp only [isArray, size, hlength]
    · simp [isArray]
  rw [checkTopology, checkTopology, h.uint (by decide)]
  simp only [harray]

theorem checkAccounting_agree {σ : Schema} (h : Agree SystemSnapshot.schema v v') {key : Bytes}
    (hk : key ∈ SystemSnapshot.schema.keys) (hσ : SystemSnapshot.schema.under key = σ)
    (hf : [lit "total_bytes", lit "available_bytes", lit "used_bytes", lit "used_percent"] ⊆
      σ.keys) : checkAccounting v key = checkAccounting v' key := by
  have hd := h.deref hk hσ
  simp only [List.cons_subset] at hf
  obtain ⟨h1, h2, h3, h4, -⟩ := hf
  rw [checkAccounting, checkAccounting]
  simp only [hd.uint h1, hd.uint h2, hd.uint h3, hd.number h4]

theorem checkProcess_agree (h : Agree ProcessInfo.schema v v') :
    checkProcess v = checkProcess v' := by
  have hname : (v.field (lit "name")).any isString = (v'.field (lit "name")).any isString :=
    h.any (Agree.scalar (fun _ _ _ => rfl) fun _ _ => rfl) (by decide)
  simp (disch := simp [ProcessInfo.schema, Schema.object, Schema.keys]) only [checkProcess, h.uint,
    h.number, hname]

theorem checkDocument_agree (h : Agree SystemSnapshot.schema v v') :
    checkDocument v = checkDocument v' := by
  have hversion : checkVersion v = checkVersion v' := by
    rw [checkVersion, checkVersion, h.uint (by decide), h.text (by decide)]
  have hobjects : forEach (checkObject v) [lit "cpu", lit "memory", lit "network", lit "disk",
        lit "process", lit "loadavg", lit "telemetry"] =
      forEach (checkObject v') [lit "cpu", lit "memory", lit "network", lit "disk",
        lit "process", lit "loadavg", lit "telemetry"] := by
    have hkeys : sections ++ [lit "telemetry"] ⊆ SystemSnapshot.schema.keys := by decide
    exact forEach_congr fun key hkey => checkObject_agree h (hkeys hkey)
  have htimestamps : forEach (checkTimestamp v) [lit "cpu", lit "memory", lit "network", lit "disk",
        lit "process", lit "loadavg"] =
      forEach (checkTimestamp v') [lit "cpu", lit "memory", lit "network", lit "disk",
        lit "process", lit "loadavg"] := by
    have hkeys : ∀ key ∈ sections, key ∈ SystemSnapshot.schema.keys ∧
        lit "timestamp" ∈ (SystemSnapshot.schema.under key).keys := by decide
    exact forEach_congr fun key hkey => checkTimestamp_agree h (hkeys key hkey).1 (hkeys key hkey).2
  have hcpu : Agree CPUMetrics.schema (deref v (lit "cpu")) (deref v' (lit "cpu")) :=
    h.deref (by decide) rfl
  have hnetwork : Agree NetworkMetrics.schema (deref v (lit "network")) (deref v' (lit "network")) :=
    h.deref (by decide) rfl
  have hloadavg : Agree LoadavgMetrics.schema (deref v (lit "loadavg")) (deref v' (lit "loadavg")) :=
    h.deref (by decide) rfl
  have htelemetry : Agree TelemetryInfo.schema (deref v (lit "telemetry"))
      (deref v' (lit "telemetry")) := h.deref (by decide) rfl
  have hprocess : Agree ProcessMetrics.schema (deref v (lit "process")) (deref v' (lit "process")) :=
    h.deref (by decide) rfl
  have htotal : checkTotalUsage (deref v (lit "cpu")) = checkTotalUsage (deref v' (lit "cpu")) := by
    rw [checkTotalUsage, checkTotalUsage, hcpu.number (by decide)]
  have hcores : forEach checkCoreUsage (arrayOr (deref v (lit "cpu")) (lit "per_core_usage_percent")) =
      forEach checkCoreUsage (arrayOr (deref v' (lit "cpu")) (lit "per_core_usage_percent")) :=
    forEach_agree (Agree.scalar (fun _ _ _ => rfl) fun _ _ => rfl) (hcpu.arrayOr (by decide) rfl)
  have haccounting : forEach (checkAccounting v) [lit "memory", lit "disk"] =
      forEach (checkAccounting v') [lit "memory", lit "disk"] := by
    refine forEach_congr fun key hkey => ?_
    rcases List.mem_cons.mp hkey with rfl | hkey
    · exact checkAccounting_agree h (by decide) rfl (by decide)
    · obtain rfl := List.mem_singleton.mp hkey
      exact checkAccounting_agree h (by decide) rfl (by decide)
  have hrates : forEach (checkRate v) [lit "rx_kbps", lit "tx_kbps"] =
      forEach (checkRate v') [lit "rx_kbps", lit "tx_kbps"] := by
    have hkeys : [lit "rx_kbps", lit "tx_kbps"] ⊆ NetworkMetrics.schema.keys := by decide
    refine forEach_congr fun key hkey => ?_
    rw [checkRate, checkRate, hnetwork.number (hkeys hkey)]
  have hloads : forEach (checkLoad v) [lit "load_1m", lit "load_5m", lit "load_15m"] =
      forEach (checkLoad v') [lit "load_1m", lit "load_5m", lit "load_15m"] := by
    have hkeys : [lit "load_1m", lit "load_5m", lit "load_15m"] ⊆ LoadavgMetrics.schema.keys := by
      decide
    refine forEach_congr fun key hkey => ?_
    rw [checkLoad, checkLoad, hloadavg.number (hkeys hkey)]
  have hidentity : checkIdentity (deref v (lit "telemetry")) =
      checkIdentity (deref v' (lit "telemetry")) := by
    rw [checkIdentity, checkIdentity, htelemetry.uint (by decide), htelemetry.text (by decide)]
  have hinterval : checkInterval (deref v (lit "telemetry")) =
      checkInterval (deref v' (lit "telemetry")) := by
    rw [checkInterval, checkInterval, htelemetry.uint (by decide)]
  have hlist : checkProcessList (deref v (lit "process")) =
      checkProcessList (deref v' (lit "process")) := by
    rw [checkProcessList, checkProcessList]
    congr 1
    refine hprocess.any (Agree.scalar (f := fun list : JSONValue D =>
      decide (list.isArray = true ∧ list.size ≤ 10000)) (fun vs vs' hlength => ?_) ?_) (by decide)
    · simp only [isArray, size, hlength]
    · simp [isArray]
  have hrows := forEach_agree checkProcess_agree (ProcessMetrics.rows_agree hprocess)
  simp only [checkDocument, hversion, hobjects, htimestamps, checkTopology_agree hcpu, htotal,
    hcores, haccounting, hrates, hloads, hidentity, hinterval, hlist, hrows]

end Decode

/-- Payloads whose trees differ only in the order of members, and in members under keys that
are not looked up in their object, have the same outcome: equal snapshots, or the same
error. -/
theorem decode_agrees {p p' : Bytes} {v v' : JSONValue D} (h : parse p = some v)
    (h' : parse p' = some v') (ha : Alike SystemSnapshot.schema v v') :
    (decode p : Except Bytes (SystemSnapshot D)) = decode p' := by
  have hagree : Agree SystemSnapshot.schema v v' := by
    obtain ⟨-, -, -, -, hk⟩ := parse_sound h
    obtain ⟨-, -, -, -, hk'⟩ := parse_sound h'
    exact ⟨ha, hk, hk'⟩
  simp only [decode, h, h', decodeTree, Decode.checkDocument_agree hagree,
    SystemSnapshot.fromJson_agree hagree]

omit [Double D] in
theorem AlikeMembers.refl (σ : Schema) (ms : List (Bytes × JSONValue D)) : AlikeMembers σ ms ms := by
  induction ms with
  | nil => exact .nil
  | cons m ms ih => exact .cons (.same _ m.2) ih

/-- The sections of a small document, but for the load. -/
def sections : List (Bytes × JSONValue Integral) :=
  let accounting := JSONValue.object [(lit "timestamp", .uint64 0), (lit "total_bytes", .uint64 8),
    (lit "available_bytes", .uint64 6), (lit "used_bytes", .uint64 2), (lit "used_percent", .uint64 25)]
  [(lit "cpu", .object [(lit "timestamp", .uint64 0), (lit "core_count", .uint64 0),
      (lit "per_core_usage_percent", .array []), (lit "total_usage_percent", .uint64 0)]),
    (lit "memory", accounting), (lit "disk", accounting),
    (lit "network", .object [(lit "timestamp", .uint64 0), (lit "rx_kbps", .uint64 3),
      (lit "tx_kbps", .uint64 0)]),
    (lit "process", .object [(lit "timestamp", .uint64 0), (lit "processes", .array [])]),
    (lit "telemetry", .object [(lit "sequence", .uint64 7), (lit "instance_id", .string (lit "a")),
      (lit "interval_ms", .uint64 1000)])]

def envelope : List (Bytes × JSONValue Integral) :=
  [(lit "type", .string (lit "snapshot")), (lit "protocol_version", .uint64 2)]

def loads : List (Bytes × JSONValue Integral) :=
  [(lit "timestamp", .uint64 0), (lit "load_1m", .uint64 1), (lit "load_5m", .uint64 5),
    (lit "load_15m", .uint64 15)]

def ordered : JSONValue Integral := .object (envelope ++ sections ++ [(lit "loadavg", .object loads)])

/-- Another order, in the load as well, which has a member more. -/
def reordered : JSONValue Integral :=
  .object ((lit "loadavg", .object ((lit "load_30m", .uint64 30) :: loads.reverse)) ::
    (sections.reverse ++ envelope))

def payload (v : JSONValue Integral) : Bytes := v.toString.getD []

theorem decode_agrees_reordered :
    (decode (payload ordered) : Except Bytes (SystemSnapshot Integral)) =
        decode (payload reordered) ∧
      (decode (payload reordered)).toOption.map (fun s : SystemSnapshot Integral =>
        (s.loadavg.load15m, s.memory.usedBytes, s.telemetry.sequence)) = some (⟨15⟩, 2, 7) := by
  have hparse : parse (payload ordered) = some ordered := by decide +kernel
  have hparse' : parse (payload reordered) = some reordered := by decide +kernel
  have hload : Alike (SystemSnapshot.schema.under (lit "loadavg")) (.object loads)
      (.object ((lit "load_30m", .uint64 30) :: loads.reverse)) := by
    have hreverse : ((lit "load_30m", JSONValue.uint64 (D := Integral) 30) :: loads.reverse).Perm
        (loads ++ [(lit "load_30m", .uint64 30)]) := by decide +kernel
    have hsame : loads.Perm (loads ++ []) := by rw [List.append_nil]
    exact .object hsame hreverse (.refl _ loads) (by decide)
  have horder : (envelope ++ sections ++ [(lit "loadavg", JSONValue.object loads)]).Perm
      ((lit "loadavg", .object loads) :: (sections.reverse ++ envelope) ++ []) := by decide +kernel
  have halike : Alike SystemSnapshot.schema ordered reordered :=
    .object horder (by rw [List.append_nil]) (.cons hload (.refl _ (sections.reverse ++ envelope)))
      (List.forall_mem_nil _)
  exact ⟨decode_agrees hparse hparse' halike, by decide +kernel⟩

end WebHtop.Common
