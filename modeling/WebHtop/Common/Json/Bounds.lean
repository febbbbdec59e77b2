import WebHtop.Common.Json.Passes

/-!
# The bounds of the parser

One relation says what every function of the parser leaves behind, on success and on failure. A
value is paid for with at least one byte, so a loop makes at most as many turns as there are bytes
left, and an activation of ParseValue behind its checks has a smaller depth left for the calls in it.
-/

namespace WebHtop.Common

open WebHtop.Lib WebHtop.Lib.Decimal Reader

namespace Cursor

/-- The calls that got past the checks of ParseValue are within the limits, and `depth` is the number
of those that have not returned. -/
structure Counted (s : Cursor) : Prop where
  nodes : s.passed ≤ s.nodes
  passed : s.passed ≤ 1000000
  active : s.active = s.depth
  deepest : s.deepest ≤ 64

/-- What a function leaves behind. The index only grows, so that its last value bounds the others. -/
structure Advances (s t : Cursor) : Prop where
  input : t.input = s.input
  depth : t.depth = s.depth
  pos : s.pos ≤ t.pos
  inside : s.pos ≤ s.input.length → t.pos ≤ t.input.length
  counted : Counted s → Counted t

theorem Advances.refl (s : Cursor) : Advances s s := ⟨rfl, rfl, Nat.le_refl _, id, id⟩

theorem Advances.trans {s t u : Cursor} (h : Advances s t) (h' : Advances t u) : Advances s u where
  input := h'.input.trans h.input
  depth := h'.depth.trans h.depth
  pos := Nat.le_trans h.pos h'.pos
  inside hin := h'.inside (h.inside hin)
  counted hc := h'.counted (h.counted hc)

theorem advance_advances {s : Cursor} {n : Nat} (h : n ≤ s.rest.length) :
    Advances s (s.advance n) where
  input := rfl
  depth := rfl
  pos := Nat.le_add_right _ _
  inside hin := by
    rw [rest_length] at h
    rw [advance_pos, advance_input]
    omega
  counted hc := ⟨hc.nodes, hc.passed, hc.active, hc.deepest⟩

theorem skip_advances (p : UInt8 → Bool) (s : Cursor) : Advances s (s.skip p) :=
  advance_advances (List.takeWhile_sublist p).length_le

theorem advance_one_advances {s : Cursor} {c : UInt8} (hpeek : s.peek = c) (hc : c ≠ 0) :
    Advances s (s.advance 1) := by
  apply advance_advances
  cases hrest : s.rest with
  | nil => exact absurd ((rest_nil hrest).2.symm.trans hpeek).symm hc
  | cons _ _ => simp

/-! ## The rules -/

variable {α β : Type} {s : Cursor}

/-- A function that settles, leaves behind what it may, and has a value only for a byte. -/
structure Bounded (m : Reader Cursor α) (s : Cursor) : Prop where
  leads : Leads Advances m s
  gains : ∀ a t, m s = (.value a, t) → s.pos < t.pos ∧ t.pos ≤ t.input.length

theorem bounded_failed {m : Reader Cursor α} {t : Cursor} (h : m s = (.failed, t))
    (hst : Advances s t) : Bounded m s := by
  constructor
  · unfold Leads
    rw [h]
    exact ⟨hst, trivial⟩
  · intro a u hu
    cases h.symm.trans hu

theorem bounded_value {m : Reader Cursor α} {a : α} {t : Cursor} (h : m s = (.value a, t))
    (hst : Advances s t) (hlt : s.pos < t.pos) (hin : t.pos ≤ t.input.length) : Bounded m s := by
  constructor
  · unfold Leads
    rw [h]
    exact ⟨hst, trivial⟩
  · intro b u hu
    obtain ⟨-, rfl⟩ := Prod.mk.inj (h.symm.trans hu)
    exact ⟨hlt, hin⟩

theorem Takes.bounded {m : Reader Cursor α} {o : Option (α × Bytes)} (h : Takes 1 s o (m s)) :
    Bounded m s := by
  generalize hr : m s = r at h
  cases h with
  | @value a n hpos hn =>
    rw [rest_length] at hn
    apply bounded_value hr (advance_advances (by rw [rest_length]; exact hn))
    · rw [advance_pos]
      omega
    · rw [advance_pos, advance_input]
      omega
  | failed hn => exact bounded_failed hr (advance_advances hn)

theorem bounded_fail (s : Cursor) : Bounded (fail : Reader Cursor α) s :=
  ⟨leads_fail Advances.refl s, fun _ _ h => by cases h⟩

theorem bounded_ite {p : Prop} [Decidable p] {m n : Reader Cursor α} (hm : p → Bounded m s)
    (hn : ¬ p → Bounded n s) : Bounded (if p then m else n) s := by
  split
  · rename_i hp
    exact hm hp
  · rename_i hp
    exact hn hp

theorem leads_then {m : Reader Cursor α} {f : α → Reader Cursor β} (hm : Leads Advances m s)
    (hf : ∀ a t, m s = (.value a, t) → Advances s t → Leads Advances (f a) t) :
    Leads Advances (m >>= f) s :=
  leads_bind (R := Advances) Advances.trans hm hf

theorem bounded_left {m : Reader Cursor α} {f : α → Reader Cursor β} (hm : Bounded m s)
    (hf : ∀ a t, Advances s t → s.pos < t.pos → t.pos ≤ t.input.length → Leads Advances (f a) t) :
    Bounded (m >>= f) s := by
  constructor
  · refine leads_then hm.leads fun a t ht hst => ?_
    exact hf a t hst (hm.gains a t ht).1 (hm.gains a t ht).2
  · intro b u hu
    obtain ⟨a, t, ht, hfu⟩ := bind_eq_value.mp hu
    obtain ⟨hlt, hin⟩ := hm.gains a t ht
    have hst : Advances s t := by
      have h := hm.leads.1
      rwa [ht] at h
    have htu : Advances t u := by
      have h := (hf a t hst hlt hin).1
      rwa [hfu] at h
    exact ⟨Nat.lt_of_lt_of_le hlt htu.pos, htu.inside hin⟩

theorem bounded_right {m : Reader Cursor α} {f : α → Reader Cursor β} (hm : Leads Advances m s)
    (hf : ∀ a t, Advances s t → Bounded (f a) t) : Bounded (m >>= f) s := by
  constructor
  · exact leads_then hm fun a t _ hst => (hf a t hst).leads
  · intro b u hu
    obtain ⟨a, t, ht, hfu⟩ := bind_eq_value.mp hu
    have hst : Advances s t := by
      have h := hm.1
      rwa [ht] at h
    obtain ⟨hlt, hin⟩ := (hf a t hst).gains b u hfu
    exact ⟨Nat.lt_of_le_of_lt hst.pos hlt, hin⟩

theorem leads_modify {g : Cursor → Cursor} (h : Advances s (g s)) :
    Leads Advances (modify g) s := ⟨h, trivial⟩

theorem leads_modify_bind {g : Cursor → Cursor} {f : PUnit → Reader Cursor β}
    (h : Advances s (g s)) (hf : Leads Advances (f ⟨⟩) (g s)) :
    Leads Advances (modify g >>= f) s :=
  leads_then (leads_modify h) fun _ _ ht _ => by
    obtain ⟨-, rfl⟩ := Prod.mk.inj ht
    exact hf

theorem leads_here_bind {f : Cursor → Reader Cursor β} (h : Leads Advances (f s) s) :
    Leads Advances (here >>= f) s := h

theorem leads_modify_pure {g : Cursor → Cursor} (h : Advances s (g s)) (b : β) :
    Leads Advances (modify g >>= fun _ => pure b) s :=
  leads_modify_bind h (leads_pure Advances.refl b _)

theorem whitespace_advances (s : Cursor) : Advances s s.skipWhitespace := skip_advances _ s

theorem bounded_expect (c : UInt8) (s : Cursor) : Bounded (expect c) s := by
  by_cases h : ∃ r, s.rest = c :: r
  · obtain ⟨r, hr⟩ := h
    have htakes := takes_one () hr
    rw [← expect_value hr] at htakes
    exact htakes.bounded
  · have htakes := takes_failed (α := Unit) 1 s
    rw [← expect_failed fun r hr => h ⟨r, hr⟩] at htakes
    exact htakes.bounded

theorem bounded_parseString (s : Cursor) : Bounded parseString s := (parseString_takes s).bounded

variable {D : Type}

theorem bounded_parseNumber [Double D] (s : Cursor) : Bounded (parseNumber (D := D)) s :=
  (parseNumber_takes s).bounded

theorem bounded_keyword {text : Bytes} (htext : text ≠ []) (v : JSONValue D) (s : Cursor) :
    Bounded (keyword text v) s := by
  apply Takes.bounded (o := if s.rest.take text.length = text then
    some (v, s.rest.drop text.length) else none)
  unfold keyword
  change Takes 1 s _ (if s.rest.take text.length = text then _ else _)
  split
  · rename_i htake
    have hlength := congrArg List.length htake
    rw [List.length_take] at hlength
    exact .value (List.length_pos_iff.mpr htext) (by omega)
  · exact takes_failed 1 s

/-! ## The loops -/

variable {value : Reader Cursor (JSONValue D)} {levels : Nat}

theorem bounded_parseItems (hvalue : ∀ t : Cursor, 64 ≤ t.depth + levels → Bounded value t)
    {fuel : Nat} {arr : List (JSONValue D)} {s : Cursor} (hd : 64 ≤ s.depth + levels)
    (hf : s.input.length - s.pos < fuel) : Bounded (parseItems value fuel arr) s := by
  induction fuel generalizing arr s with
  | zero => omega
  | succ fuel ih =>
    refine bounded_left (hvalue s hd) fun v t hst hlt hin => ?_
    apply leads_modify_bind (whitespace_advances t)
    apply leads_here_bind
    apply leads_ite
    · intro hclose
      exact leads_modify_pure (advance_one_advances hclose (by decide)) _
    intro _
    apply leads_ite
    · intro hcomma
      have hstep := advance_one_advances hcomma (by decide)
      apply leads_modify_bind hstep
      apply leads_modify_bind (whitespace_advances _)
      apply leads_here_bind
      apply leads_ite
      · intro _
        exact leads_fail Advances.refl _
      · intro _
        have hsu := (hst.trans (whitespace_advances t)).trans (hstep.trans (whitespace_advances _))
        have htu := (whitespace_advances t).trans (hstep.trans (whitespace_advances _))
        apply (ih _ _).leads
        · rw [hsu.depth]
          exact hd
        · have hinput := hst.input
          have hpos := htu.pos
          rw [hsu.input]
          rw [hinput] at hin
          omega
    · intro _
      exact leads_fail Advances.refl _

theorem bounded_parseArray (hvalue : ∀ t : Cursor, 64 ≤ t.depth + levels → Bounded value t)
    {s : Cursor} (hd : 64 ≤ s.depth + levels) : Bounded (parseArray value) s := by
  refine bounded_left (bounded_expect _ s) fun _ t hst _ _ => ?_
  apply leads_modify_bind (whitespace_advances t)
  apply leads_here_bind
  apply leads_ite
  · intro hclose
    exact leads_modify_pure (advance_one_advances hclose (by decide)) _
  · intro _
    apply (bounded_parseItems hvalue _ (Nat.lt_succ_self _)).leads
    rw [(hst.trans (whitespace_advances t)).depth]
    exact hd

theorem bounded_parseMembers (hvalue : ∀ t : Cursor, 64 ≤ t.depth + levels → Bounded value t)
    {fuel : Nat} {obj : List (Bytes × JSONValue D)} {s : Cursor} (hd : 64 ≤ s.depth + levels)
    (hf : s.input.length - s.pos < fuel) : Bounded (parseMembers value fuel obj) s := by
  induction fuel generalizing obj s with
  | zero => omega
  | succ fuel ih =>
    refine bounded_right (leads_modify (whitespace_advances s)) fun _ r hsr => ?_
    refine bounded_left (bounded_parseString r) fun key t hrt hlt hin => ?_
    have hst := hsr.trans hrt
    apply leads_ite
    · intro _
      exact leads_fail Advances.refl _
    intro _
    apply leads_modify_bind (whitespace_advances t)
    refine leads_then (bounded_expect _ _).leads fun _ u _ htu => ?_
    apply leads_modify_bind (whitespace_advances u)
    have hsu := (hst.trans ((whitespace_advances t).trans htu)).trans (whitespace_advances u)
    have htu := (whitespace_advances t).trans (htu.trans (whitespace_advances u))
    refine leads_then (hvalue _ ?_).leads fun v x _ hux => ?_
    · rw [hsu.depth]
      exact hd
    apply leads_modify_bind (whitespace_advances x)
    apply leads_here_bind
    apply leads_ite
    · intro hclose
      exact leads_modify_pure (advance_one_advances hclose (by decide)) _
    intro _
    apply leads_ite
    · intro hcomma
      have hstep := advance_one_advances hcomma (by decide)
      apply leads_modify_bind hstep
      apply leads_modify_bind (whitespace_advances _)
      apply leads_here_bind
      apply leads_ite
      · intro _
        exact leads_fail Advances.refl _
      · intro _
        have hxy := (whitespace_advances x).trans (hstep.trans (whitespace_advances _))
        have hty := htu.trans (hux.trans hxy)
        have hsy := hst.trans hty
        apply (ih _ _).leads
        · rw [hsy.depth]
          exact hd
        · have hpos := hty.pos
          have hfirst := hsr.pos
          rw [hsy.input]
          rw [hst.input] at hin
          omega
    · intro _
      exact leads_fail Advances.refl _

theorem bounded_parseObject (hvalue : ∀ t : Cursor, 64 ≤ t.depth + levels → Bounded value t)
    {s : Cursor} (hd : 64 ≤ s.depth + levels) : Bounded (parseObject value) s := by
  refine bounded_left (bounded_expect _ s) fun _ t hst _ _ => ?_
  apply leads_modify_bind (whitespace_advances t)
  apply leads_here_bind
  apply leads_ite
  · intro hclose
    exact leads_modify_pure (advance_one_advances hclose (by decide)) _
  · intro _
    apply (bounded_parseMembers hvalue _ (Nat.lt_succ_self _)).leads
    rw [(hst.trans (whitespace_advances t)).depth]
    exact hd

/-! ## The recursion -/

theorem bounded_parseSwitch [Double D]
    (hvalue : ∀ t : Cursor, 64 ≤ t.depth + levels → Bounded value t) {s : Cursor}
    (hd : 64 ≤ s.depth + levels) : Bounded (parseSwitch value) s := by
  refine bounded_right ⟨Advances.refl s, trivial⟩ fun c t hst => ?_
  have hdt : 64 ≤ t.depth + levels := by
    rw [hst.depth]
    exact hd
  refine bounded_ite (fun _ => bounded_keyword (by decide) _ t) fun _ => ?_
  refine bounded_ite (fun _ => bounded_keyword (by decide) _ t) fun _ => ?_
  refine bounded_ite (fun _ => bounded_keyword (by decide) _ t) fun _ => ?_
  refine bounded_ite (fun _ => ?_) fun _ => ?_
  · exact bounded_left (bounded_parseString t) fun _ u _ _ _ => leads_pure Advances.refl _ u
  refine bounded_ite (fun _ => bounded_parseArray hvalue hdt) fun _ => ?_
  refine bounded_ite (fun _ => bounded_parseObject hvalue hdt) fun _ => ?_
  exact bounded_ite (fun _ => bounded_parseNumber t) fun _ => bounded_fail t

theorem guarded_deep {s : Cursor} (h : s.depth ≥ 64) (body : Reader Cursor (JSONValue D)) :
    guarded body s = (.failed, s) := if_pos h

theorem guarded_many {s : Cursor} (h : ¬ s.depth ≥ 64) (h' : s.nodes + 1 > 1000000)
    (body : Reader Cursor (JSONValue D)) :
    guarded body s = (.failed, { s with nodes := s.nodes + 1 }) := by
  rw [guarded, if_neg h, if_pos h']

theorem guarded_enter {s : Cursor} (h : ¬ s.depth ≥ 64) (h' : ¬ s.nodes + 1 > 1000000)
    (body : Reader Cursor (JSONValue D)) :
    guarded body s = ((body s.enter).1, (body s.enter).2.leave) := by
  rw [guarded, if_neg h, if_neg h']

theorem Counted.enter {s : Cursor} (h : Counted s) (hd : ¬ s.depth ≥ 64)
    (hn : ¬ s.nodes + 1 > 1000000) : Counted s.enter := by
  obtain ⟨hnodes, hpassed, hactive, hdeepest⟩ := h
  constructor <;> simp only [Cursor.enter] <;> omega

/-- What the body does from behind the checks is within the bounds around it as well. -/
theorem Advances.guarded {s t : Cursor} (h : Advances s.enter t) (hd : ¬ s.depth ≥ 64)
    (hn : ¬ s.nodes + 1 > 1000000) : Advances s t.leave where
  input := h.input
  depth := by
    rw [leave, h.depth]
    rfl
  pos := h.pos
  inside := h.inside
  counted hc := by
    obtain ⟨hnodes, hpassed, hactive, hdeepest⟩ := h.counted (hc.enter hd hn)
    exact ⟨hnodes, hpassed, congrArg (· - 1) hactive, hdeepest⟩

/-- The checks of ParseValue and its guard around a body that is bounded a level deeper. -/
theorem bounded_guarded {body : Reader Cursor (JSONValue D)} {s : Cursor}
    (hbody : s.depth < 64 → Bounded body s.enter) : Bounded (guarded body) s := by
  by_cases hdepth : s.depth ≥ 64
  · exact bounded_failed (guarded_deep hdepth body) (Advances.refl s)
  by_cases hnodes : s.nodes + 1 > 1000000
  · refine bounded_failed (guarded_many hdepth hnodes body) ⟨rfl, rfl, Nat.le_refl _, id, fun hc => ?_⟩
    exact ⟨Nat.le_succ_of_le hc.nodes, hc.passed, hc.active, hc.deepest⟩
  have h := guarded_enter hdepth hnodes body
  obtain ⟨⟨hstep, hsettled⟩, hgains⟩ := hbody (by omega)
  constructor
  · unfold Leads
    rw [h]
    exact ⟨hstep.guarded hdepth hnodes, hsettled⟩
  · intro a t ht
    obtain ⟨ha, rfl⟩ := Prod.mk.inj (h.symm.trans ht)
    exact hgains a (body s.enter).2 (by rw [← ha])

theorem bounded_parseValue [Double D] (levels : Nat) :
    ∀ s : Cursor, 64 ≤ s.depth + levels → Bounded (parseValue (D := D) levels) s := by
  induction levels with
  | zero =>
    intro s hd
    exact bounded_guarded fun hlt => by omega
  | succ levels ih =>
    intro s hd
    refine bounded_guarded fun hlt => ?_
    refine bounded_right (leads_modify (whitespace_advances s.enter)) fun _ u htu => ?_
    apply bounded_parseSwitch ih
    have hdepth : u.depth = s.depth + 1 := htu.depth
    omega

variable [Double D]

theorem parse_leads (input : Bytes) :
    Advances { input } (parse (D := D) input).2 ∧ (parse (D := D) input).1.Settled := by
  unfold parse
  split
  · exact ⟨Advances.refl _, trivial⟩
  · have hroot := bounded_parseValue (D := D) 64 { input } (Nat.le_add_left _ _)
    refine leads_then hroot.leads fun root t _ _ => ?_
    apply leads_modify_bind (whitespace_advances t)
    apply leads_here_bind
    apply leads_ite
    · intro _
      exact leads_pure Advances.refl root _
    · intro _
      exact leads_fail Advances.refl _

/-- The bounds of every call, from any state, and of Parse: the index stays inside of the input and
grows with a value, the depth is restored, and at most 64 activations of ParseValue are nested behind
its checks, which at most 1000000 calls pass. The call that finds 64 of them returns at its first
test. No call is cut off, with loops bounded by the bytes left and the recursion by 64 levels. -/
theorem parser_bounded :
    (∀ (levels : Nat) (s : Cursor), 64 ≤ s.depth + levels →
      Bounded (parseValue (D := D) levels) s ∧
      Bounded (parseArray (parseValue (D := D) levels)) s ∧
      Bounded (parseObject (parseValue (D := D) levels)) s) ∧
    (∀ s : Cursor, Bounded parseString s ∧ Bounded (parseNumber (D := D)) s) ∧
    ∀ input : Bytes, (parse (D := D) input).1.Settled ∧
      (parse (D := D) input).2.pos ≤ input.length ∧ (parse (D := D) input).2.depth = 0 ∧
      (parse (D := D) input).2.deepest ≤ 64 ∧ (parse (D := D) input).2.passed ≤ 1000000 := by
  refine ⟨fun levels s hd => ?_, fun s => ?_, fun input => ?_⟩
  · have hvalue := bounded_parseValue (D := D) levels
    exact ⟨hvalue s hd, bounded_parseArray hvalue hd, bounded_parseObject hvalue hd⟩
  · exact ⟨bounded_parseString s, bounded_parseNumber s⟩
  · obtain ⟨hadvances, hsettled⟩ := parse_leads (D := D) input
    have hcounted := hadvances.counted
      ⟨Nat.zero_le _, Nat.zero_le _, rfl, Nat.zero_le _⟩
    have hinside := hadvances.inside (Nat.zero_le _)
    rw [hadvances.input] at hinside
    exact ⟨hsettled, hinside, hadvances.depth, hcounted.deepest, hcounted.passed⟩

end Cursor

end WebHtop.Common
