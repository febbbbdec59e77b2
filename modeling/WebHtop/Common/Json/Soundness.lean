import WebHtop.Common.Json.Strings
import WebHtop.Common.Json.Numbers

/-!
# What the parser accepts is a JSON text within the limits

One statement for each of the mutually recursive functions, and one step lemma that
derives it from those of the functions it calls with less fuel.
-/

namespace WebHtop.Common

open WebHtop.Lib WebHtop.Lib.Json

variable {D : Type} [Double D]

open JSONValue

/-- The counters behind values of `nodes` nodes and depth `depth`. -/
structure Counts (st st' : ParserState) (nodes depth : Nat) : Prop where
  depth_eq : st'.depth = st.depth
  nodes_eq : st'.nodes = st.nodes + nodes
  nodes_le : st'.nodes ≤ 1000000
  depth_le : st.depth + depth ≤ 64

theorem Counts.of_rest {st st' : ParserState} {r : Bytes} {nodes depth : Nat}
    (h : Counts { st with rest := r } st' nodes depth) : Counts st st' nodes depth :=
  ⟨h.1, h.2, h.3, h.4⟩

theorem Counts.with_rest {st st' : ParserState} {nodes depth : Nat} (h : Counts st st' nodes depth)
    (r : Bytes) : Counts st { st' with rest := r } nodes depth :=
  ⟨h.1, h.2, h.3, h.4⟩

theorem Counts.append {st st' st'' : ParserState} {n n' d d' : Nat} (h : Counts st st' n d)
    (h' : Counts st' st'' n' d') : Counts st st'' (n + n') (max d d') := by
  obtain ⟨h1, h2, -, h4⟩ := h
  obtain ⟨h1', h2', h3', h4'⟩ := h'
  exact ⟨by omega, by omega, h3', by omega⟩

def ValueSound (fuel : Nat) : Prop :=
  ∀ (st st' : ParserState) (v : JSONValue D), parseValue fuel st = (some v, st') →
    (∃ s, Ws st.rest s ∧ ValueText Number s v st'.rest) ∧ Counts st st' v.nodes v.depth ∧
      v.KeysWithin 4096

/-- For the functions under ParseValue, which has counted the node and the level. -/
def BodySound (f : ParserState → Option (JSONValue D) × ParserState) : Prop :=
  ∀ st st' v, f st = (some v, st') → st.depth ≤ 64 → st.nodes ≤ 1000000 →
    ValueText Number st.rest v st'.rest ∧ Counts st st' (v.nodes - 1) (v.depth - 1) ∧
      v.KeysWithin 4096

def ItemsSound (fuel : Nat) : Prop :=
  ∀ (arr : List (JSONValue D)) (st st' : ParserState) (w : JSONValue D),
    parseItems fuel arr st = (some w, st') →
    ∃ vs, vs ≠ [] ∧ w = .array (arr ++ vs) ∧ ItemsText Number st.rest vs st'.rest ∧
      Counts st st' (nodesItems vs) (depthItems vs) ∧ KeysWithinItems 4096 vs

def MembersSound (fuel : Nat) : Prop :=
  ∀ (obj : List (Bytes × JSONValue D)) (st st' : ParserState) (w : JSONValue D),
    parseMembers fuel obj st = (some w, st') → (obj.map Prod.fst).Nodup →
    ∃ ms, ms ≠ [] ∧ w = .object (obj ++ ms) ∧ MembersText Number st.rest ms st'.rest ∧
      Counts st st' (nodesMembers ms) (depthMembers ms) ∧ KeysWithinMembers 4096 ms ∧
      ((obj ++ ms).map Prod.fst).Nodup ∧ (obj ++ ms).length ≤ 4096

/-! ## The leaves -/

omit [Double D] in
theorem Counts.leaf {st : ParserState} {v : JSONValue D} (hv : v.nodes = 1 ∧ v.depth = 1)
    (hd : st.depth ≤ 64) (hn : st.nodes ≤ 1000000) (rest : Bytes) :
    Counts st { st with rest } (v.nodes - 1) (v.depth - 1) := by
  rw [hv.1, hv.2]
  exact ⟨rfl, rfl, hn, hd⟩

theorem keyword_sound {text : Bytes} {w : JSONValue D} (hw : w.nodes = 1 ∧ w.depth = 1)
    (hk : w.KeysWithin 4096) (htext : ∀ t, ValueText Number (text ++ t) w t) :
    BodySound (keyword text w) := by
  intro st st' v h hd hn
  unfold keyword at h
  split at h
  · rename_i htake
    obtain ⟨hv, rfl⟩ := Prod.mk.inj h
    obtain rfl := Option.some.inj hv
    refine ⟨?_, .leaf hw hd hn _, hk⟩
    have hsplit := List.take_append_drop text.length st.rest
    rw [htake] at hsplit
    have := htext (st.rest.drop text.length)
    rwa [hsplit] at this
  · cases (Prod.mk.inj h).1

theorem token_sound {α : Type} {read : Bytes → Option (α × Bytes)} {f : α → JSONValue D}
    (hf : ∀ s a t, read s = some (a, t) → ValueText Number s (f a) t ∧
      ((f a).nodes = 1 ∧ (f a).depth = 1) ∧ (f a).KeysWithin 4096) :
    BodySound fun st => token (read st.rest) f st := by
  intro st st' v h hd hn
  dsimp only at h
  cases hr : read st.rest with
  | none =>
      rw [hr] at h
      cases (Prod.mk.inj h).1
  | some r =>
      obtain ⟨a, t⟩ := r
      rw [hr] at h
      obtain ⟨hv, rfl⟩ := Prod.mk.inj h
      obtain rfl := Option.some.inj hv
      obtain ⟨htext, hleaf, hkeys⟩ := hf _ _ _ hr
      exact ⟨htext, .leaf hleaf hd hn t, hkeys⟩

theorem string_sound : BodySound (D := D) fun st => token (parseString st.rest) .string st := by
  refine token_sound fun s d t h => ?_
  obtain ⟨body, rfl, hbody⟩ := parseString_iff.mp h
  exact ⟨.string hbody, by simp [nodes, depth], by simp [KeysWithin]⟩

theorem Number.leaf {x : Bytes} {v : JSONValue D} (h : Number x v) :
    (v.nodes = 1 ∧ v.depth = 1) ∧ v.KeysWithin 4096 := by
  cases h <;> simp [nodes, depth, KeysWithin]

theorem number_sound : BodySound (D := D) fun st => token (parseNumber st.rest) id st := by
  refine token_sound fun s v t h => ?_
  obtain ⟨x, rfl, hx⟩ := number_of_parseNumber h
  exact ⟨.number hx, hx.leaf⟩

/-! ## One step of each function -/

theorem parseValue_sound {fuel : Nat} (ih : BodySound (D := D) (parseSwitch fuel)) :
    ValueSound (D := D) (fuel + 1) := by
  intro st st' v h
  simp only [parseValue] at h
  split at h
  · cases (Prod.mk.inj h).1
  rename_i hdepth
  split at h
  · cases (Prod.mk.inj h).1
  rename_i hnodes
  generalize hr : parseSwitch (D := D) fuel _ = r at h
  obtain ⟨rv, rst⟩ := r
  obtain ⟨rfl, rfl⟩ := Prod.mk.inj h
  obtain ⟨htext, hc, hkeys⟩ := ih _ _ _ hr (by dsimp only; omega) (by dsimp only; omega)
  have hn := v.one_le_nodes
  have hd := v.one_le_depth
  obtain ⟨h1, h2, h3, h4⟩ := hc
  dsimp only at h1 h2 h4
  refine ⟨⟨_, ws_skipWhitespace _, htext⟩, ⟨?_, ?_, h3, ?_⟩, hkeys⟩
  · dsimp only
    omega
  · dsimp only
    omega
  · omega

theorem parseSwitch_sound {fuel : Nat} (iha : BodySound (D := D) (parseArray fuel))
    (iho : BodySound (D := D) (parseObject fuel)) : BodySound (D := D) (parseSwitch (fuel + 1)) := by
  intro st st' v h
  simp only [parseSwitch] at h
  split at h
  · cases (Prod.mk.inj h).1
  split_ifs at h
  · exact keyword_sound (by simp [nodes, depth]) (by simp [KeysWithin]) (fun _ => .null) _ _ _ h
  · exact keyword_sound (by simp [nodes, depth]) (by simp [KeysWithin]) (fun _ => .boolTrue) _ _ _ h
  · exact keyword_sound (by simp [nodes, depth]) (by simp [KeysWithin]) (fun _ => .boolFalse) _ _ _ h
  · exact string_sound _ _ _ h
  · exact iha _ _ _ h
  · exact iho _ _ _ h
  · exact number_sound _ _ _ h
  · cases (Prod.mk.inj h).1

theorem parseArray_sound {fuel : Nat} (ih : ItemsSound (D := D) fuel) :
    BodySound (D := D) (parseArray (fuel + 1)) := by
  intro st st' v h hd hn
  simp only [parseArray] at h
  split at h
  · cases (Prod.mk.inj h).1
  rename_i c cs hrest
  split at h
  · rename_i hc
    obtain rfl : c = 0x5B := hc
    split at h
    · rename_i hclose
      obtain ⟨hv, rfl⟩ := Prod.mk.inj h
      obtain rfl := Option.some.inj hv
      have hw := ws_skipWhitespace cs
      obtain ⟨t, ht⟩ := List.head?_eq_some_iff.mp hclose
      rw [ht] at hw ⊢
      rw [hrest]
      exact ⟨.emptyArray hw, .leaf (by simp [nodes, nodesItems, depth, depthItems]) hd hn _,
        by simp [KeysWithin, KeysWithinItems]⟩
    · obtain ⟨vs, hne, rfl, htext, hc, hkeys⟩ := ih _ _ _ _ h
      obtain ⟨w, ws, rfl⟩ := List.exists_cons_of_ne_nil hne
      rw [hrest]
      refine ⟨.array (htext.ws (ws_skipWhitespace cs)), ?_, ?_⟩
      · simpa [nodes, depth] using hc.of_rest
      · simpa [KeysWithin] using hkeys
  · cases (Prod.mk.inj h).1

theorem parseItems_sound {fuel : Nat} (ihv : ValueSound (D := D) fuel)
    (ih : ItemsSound (D := D) fuel) : ItemsSound (D := D) (fuel + 1) := by
  intro arr st st' w h
  simp only [parseItems] at h
  split at h
  · cases (Prod.mk.inj h).1
  rename_i v st1 hvalue
  obtain ⟨⟨s, hs, htext⟩, hc, hkeys⟩ := ihv _ _ _ hvalue
  have hws := ws_skipWhitespace st1.rest
  split at h
  · cases (Prod.mk.inj h).1
  rename_i c cs hrest
  rw [hrest] at hws
  split at h
  · rename_i hclose
    obtain rfl : c = 0x5D := hclose
    obtain ⟨hw, rfl⟩ := Prod.mk.inj h
    obtain rfl := Option.some.inj hw
    refine ⟨[v], by simp, rfl, .last hs htext hws, ?_, ?_⟩
    · simpa [nodesItems, depthItems] using hc.with_rest cs
    · simpa [KeysWithinItems] using hkeys
  · split at h
    · rename_i hcomma
      obtain rfl : c = 0x2C := hcomma
      split at h
      · cases (Prod.mk.inj h).1
      · obtain ⟨vs, hne, rfl, hitems, hc', hkeys'⟩ := ih _ _ _ _ h
        refine ⟨v :: vs, by simp, by simp,
          .more hs htext hws (hitems.ws (ws_skipWhitespace cs)), ?_, ?_⟩
        · simpa [nodesItems, depthItems] using hc.append hc'.of_rest
        · simpa [KeysWithinItems] using ⟨hkeys, hkeys'⟩
    · cases (Prod.mk.inj h).1

theorem parseObject_sound {fuel : Nat} (ih : MembersSound (D := D) fuel) :
    BodySound (D := D) (parseObject (fuel + 1)) := by
  intro st st' v h hd hn
  simp only [parseObject] at h
  split at h
  · cases (Prod.mk.inj h).1
  rename_i c cs hrest
  split at h
  · rename_i hc
    obtain rfl : c = 0x7B := hc
    split at h
    · rename_i hclose
      obtain ⟨hv, rfl⟩ := Prod.mk.inj h
      obtain rfl := Option.some.inj hv
      have hw := ws_skipWhitespace cs
      obtain ⟨t, ht⟩ := List.head?_eq_some_iff.mp hclose
      rw [ht] at hw ⊢
      rw [hrest]
      exact ⟨.emptyObject hw, .leaf (by simp [nodes, nodesMembers, depth, depthMembers]) hd hn _,
        by simp [KeysWithin, KeysWithinMembers]⟩
    · obtain ⟨ms, hne, rfl, htext, hc, hkeys, hnodup, hlength⟩ := ih _ _ _ _ h (by simp)
      obtain ⟨m, ms, rfl⟩ := List.exists_cons_of_ne_nil hne
      rw [hrest]
      refine ⟨.object (htext.ws (ws_skipWhitespace cs)), ?_, hnodup, hlength, hkeys⟩
      simpa [nodes, depth] using hc.of_rest
  · cases (Prod.mk.inj h).1

theorem parseMembers_sound {fuel : Nat} (ihv : ValueSound (D := D) fuel)
    (ih : MembersSound (D := D) fuel) : MembersSound (D := D) (fuel + 1) := by
  intro obj st st' w h hnodup
  simp only [parseMembers] at h
  split at h
  · cases (Prod.mk.inj h).1
  rename_i key rest hkey
  obtain ⟨body, hquote, hbody⟩ := parseString_iff.mp hkey
  have hws := ws_skipWhitespace st.rest
  rw [hquote] at hws
  split at h
  · cases (Prod.mk.inj h).1
  rename_i hlimit
  rw [not_or, Nat.not_le] at hlimit
  obtain ⟨hlength, hnew⟩ := hlimit
  have hnodup' : ((obj ++ [(key, JSONValue.null (D := D))]).map Prod.fst).Nodup := by
    rw [List.map_append, List.map_singleton]
    exact hnodup.append (List.nodup_singleton key) (by simpa [List.disjoint_singleton] using hnew)
  have hwc := ws_skipWhitespace rest
  split at h
  · cases (Prod.mk.inj h).1
  rename_i c cs hcolon
  rw [hcolon] at hwc
  split at h
  · rename_i hc
    obtain rfl : c = 0x3A := hc
    split at h
    · cases (Prod.mk.inj h).1
    rename_i v st1 hvalue
    obtain ⟨⟨s, hs, htext⟩, hc, hkeys⟩ := ihv _ _ _ hvalue
    have hvs := (ws_skipWhitespace cs).trans hs
    have hwe := ws_skipWhitespace st1.rest
    split at h
    · cases (Prod.mk.inj h).1
    rename_i c ds hrest
    rw [hrest] at hwe
    split at h
    · rename_i hclose
      obtain rfl : c = 0x7D := hclose
      obtain ⟨hw, rfl⟩ := Prod.mk.inj h
      obtain rfl := Option.some.inj hw
      refine ⟨[(key, v)], by simp, rfl, .last hws hbody hwc hvs htext hwe, ?_, ?_, ?_, ?_⟩
      · simpa [nodesMembers, depthMembers] using hc.of_rest.with_rest ds
      · simpa [KeysWithinMembers] using hkeys
      · simpa using hnodup'
      · simpa using hlength
    · split at h
      · rename_i hcomma
        obtain rfl : c = 0x2C := hcomma
        split at h
        · cases (Prod.mk.inj h).1
        · obtain ⟨ms, hne, rfl, hmembers, hc', hkeys', hnodup'', hlength'⟩ :=
            ih _ _ _ _ h (by simpa using hnodup')
          refine ⟨(key, v) :: ms, by simp, by simp,
            .more hws hbody hwc hvs htext hwe (hmembers.ws (ws_skipWhitespace ds)), ?_, ?_, ?_, ?_⟩
          · simpa [nodesMembers, depthMembers] using hc.of_rest.append hc'.of_rest
          · simpa [KeysWithinMembers] using ⟨hkeys, hkeys'⟩
          · simpa using hnodup''
          · simpa using hlength'
      · cases (Prod.mk.inj h).1
  · cases (Prod.mk.inj h).1

/-! ## All of them -/

theorem parser_sound (fuel : Nat) :
    ValueSound (D := D) fuel ∧ BodySound (D := D) (parseSwitch fuel) ∧
      BodySound (D := D) (parseArray fuel) ∧ ItemsSound (D := D) fuel ∧
      BodySound (D := D) (parseObject fuel) ∧ MembersSound (D := D) fuel := by
  induction fuel with
  | zero =>
      refine ⟨fun _ _ _ h => ?_, fun _ _ _ h => ?_, fun _ _ _ h => ?_, fun _ _ _ _ h => ?_,
        fun _ _ _ h => ?_, fun _ _ _ _ h => ?_⟩
      · simp [parseValue] at h
      · simp [parseSwitch] at h
      · simp [parseArray] at h
      · simp [parseItems] at h
      · simp [parseObject] at h
      · simp [parseMembers] at h
  | succ fuel ih =>
      obtain ⟨hvalue, hswitch, harray, hitems, hobject, hmembers⟩ := ih
      exact ⟨parseValue_sound hswitch, parseSwitch_sound harray hobject, parseArray_sound hitems,
        parseItems_sound hvalue hitems, parseObject_sound hmembers,
        parseMembers_sound hvalue hmembers⟩

/-- Everything the parser accepts is a JSON text within its limits. -/
theorem parse_sound {x : Bytes} {v : JSONValue D} (h : parse x = some v) :
    x.length ≤ 8 * 1024 * 1024 ∧ JsonText Number x v ∧ v.depth ≤ 64 ∧ v.nodes ≤ 1000000 ∧
      v.KeysWithin 4096 := by
  unfold parse at h
  split at h
  · cases h
  rename_i hlength
  split at h
  · cases h
  rename_i root st hvalue
  split at h
  · rename_i hend
    obtain rfl := Option.some.inj h
    obtain ⟨⟨s, hs, htext⟩, hc, hkeys⟩ := (parser_sound _).1 _ _ _ hvalue
    have hws := ws_skipWhitespace st.rest
    rw [hend] at hws
    obtain ⟨-, h2, h3, h4⟩ := hc
    exact ⟨by omega, ⟨s, st.rest, hs, htext, hws⟩, by simpa using h4, by simpa [h2] using h3, hkeys⟩
  · cases h

end WebHtop.Common
