import WebHtop.Common.Json.RoundTrip

/-!
# Clean trees

What `Clean` says of components, and that the parser builds nothing else: its strings and
keys are well-formed UTF-8 and its doubles are finite.
-/

namespace WebHtop.Common

open WebHtop.Lib WebHtop.Lib.Json

variable {D : Type} {P : D → Prop}

namespace JSONValue

theorem cleanItems_iff {vs : List (JSONValue D)} : CleanItems P vs ↔ ∀ v ∈ vs, v.Clean P := by
  induction vs with
  | nil => simp [CleanItems]
  | cons v vs ih => simp [CleanItems, ih]

theorem cleanMembers_iff {ms : List (Bytes × JSONValue D)} :
    CleanMembers P ms ↔ ∀ m ∈ ms, Utf8.WellFormed m.1 ∧ m.2.Clean P := by
  induction ms with
  | nil => simp [CleanMembers]
  | cons m ms ih => simp [CleanMembers, ih, and_assoc]

theorem Clean.field {v w : JSONValue D} {key : Bytes} (h : v.Clean P)
    (hf : v.field key = some w) : w.Clean P := by
  cases v with
  | object ms =>
      obtain ⟨m, hm, rfl⟩ := Option.map_eq_some_iff.mp hf
      exact (cleanMembers_iff.mp h m (List.mem_of_find?_eq_some hm)).2
  | _ => cases hf

theorem Clean.text {v : JSONValue D} (h : v.Clean P) (key : Bytes) :
    Utf8.WellFormed (Access.text v key) := by
  unfold Access.text
  cases hf : v.field key with
  | none => exact Utf8.wellFormed_nil
  | some w =>
      have hw := h.field hf
      cases w with
      | string s => exact hw
      | _ => exact Utf8.wellFormed_nil

end JSONValue

open JSONValue

/-! ## The trees of texts -/

variable {N : Bytes → JSONValue D → Prop}

theorem ItemsText.clean {vs : List (JSONValue D)}
    (hvs : ∀ v ∈ vs, ∀ {s t}, ValueText N s v t → v.Clean P) {s t : Bytes}
    (h : ItemsText N s vs t) : CleanItems P vs := by
  induction vs generalizing s with
  | nil => cases h
  | cons v vs ih =>
      cases h with
      | last _ hv _ => exact ⟨hvs v List.mem_cons_self hv, trivial⟩
      | more _ hv _ hrest =>
          exact ⟨hvs v List.mem_cons_self hv,
            ih (fun w hw => hvs w (List.mem_cons_of_mem v hw)) hrest⟩

theorem MembersText.clean {ms : List (Bytes × JSONValue D)}
    (hms : ∀ m ∈ ms, ∀ {s t}, ValueText N s m.2 t → m.2.Clean P) {s t : Bytes}
    (h : MembersText N s ms t) : CleanMembers P ms := by
  induction ms generalizing s with
  | nil => cases h
  | cons m ms ih =>
      cases h with
      | last _ hk _ _ hv _ => exact ⟨hk.wellFormed, hms _ List.mem_cons_self hv, trivial⟩
      | more _ hk _ _ hv _ hrest =>
          exact ⟨hk.wellFormed, hms _ List.mem_cons_self hv,
            ih (fun w hw => hms w (List.mem_cons_of_mem _ hw)) hrest⟩

/-- A text denotes a clean tree when its numbers do. -/
theorem ValueText.clean (hN : ∀ {x v}, N x v → v.Clean P) (v : JSONValue D) :
    ∀ {s t : Bytes}, ValueText N s v t → v.Clean P := by
  induction v using tree_induction with
  | null => exact fun _ => trivial
  | bool => exact fun _ => trivial
  | int64 => exact fun _ => trivial
  | uint64 => exact fun _ => trivial
  | double d =>
      intro s t h
      cases h with
      | number hx => exact hN hx
  | string b =>
      intro s t h
      cases h with
      | number hx => exact hN hx
      | string hb => exact hb.wellFormed
  | array vs ih =>
      intro s t h
      cases h with
      | number hx => exact hN hx
      | emptyArray => trivial
      | array hvs => exact hvs.clean ih
  | object ms ih =>
      intro s t h
      cases h with
      | number hx => exact hN hx
      | emptyObject => trivial
      | object hms => exact hms.clean ih

theorem Number.clean [Double D] {x : Bytes} {v : JSONValue D} (h : Number x v) :
    v.Clean fun d => Double.isFinite d = true := by
  cases h with
  | nonneg => trivial
  | neg => trivial
  | real _ _ _ _ _ _ hf => exact hf

/-- The parser builds clean trees. -/
theorem parse_clean [Double D] {x : Bytes} {v : JSONValue D} (h : parse x = some v) :
    v.Clean fun d => Double.isFinite d = true := by
  obtain ⟨-, ⟨_, _, _, hv, _⟩, -⟩ := parse_sound h
  exact hv.clean Number.clean v

end WebHtop.Common
