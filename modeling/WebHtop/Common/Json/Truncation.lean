import WebHtop.Common.Json.Reals

/-!
# Truncated objects

The closing brace of an object is found by its text alone: whatever follows, every derivation
stops there. No proper prefix of the text of an object is therefore a JSON text.
-/

namespace WebHtop.Common

open WebHtop.Lib WebHtop.Lib.Json JSONValue

/-! ## More text behind a value -/

section

variable {D : Type} {N : Bytes → JSONValue D → Prop}

/-- A derivation does not look behind its value. -/
theorem ValueText.append {s t : Bytes} {v : JSONValue D} (h : ValueText N s v t) (r : Bytes) :
    ValueText N (s ++ r) v (t ++ r) := by
  refine @ValueText.rec D N (fun s v t _ => ValueText N (s ++ r) v (t ++ r))
    (fun s vs t _ => ItemsText N (s ++ r) vs (t ++ r))
    (fun s ms t _ => MembersText N (s ++ r) ms (t ++ r))
    ?null ?true ?false ?number ?string ?emptyArray ?array ?emptyObject ?object ?lastItem
    ?moreItems ?lastMember ?moreMembers s v t h
  case null => exact .null
  case true => exact .boolTrue
  case false => exact .boolFalse
  case number =>
      intro x t v hx
      rw [List.append_assoc]
      exact .number hx
  case string => exact fun hb => .string (hb.append r)
  case emptyArray => exact fun hw => .emptyArray (hw.append r)
  case array => exact fun _ ih => .array ih
  case emptyObject => exact fun hw => .emptyObject (hw.append r)
  case object => exact fun _ ih => .object ih
  case lastItem => exact fun h1 _ h3 ih => .last (h1.append r) ih (h3.append r)
  case moreItems => exact fun h1 _ h3 _ ih ih' => .more (h1.append r) ih (h3.append r) ih'
  case lastMember =>
      exact fun h1 h2 h3 h4 _ h6 ih => .last (h1.append r) (h2.append r) (h3.append r)
        (h4.append r) ih (h6.append r)
  case moreMembers =>
      exact fun h1 h2 h3 h4 _ h6 _ ih ih' => .more (h1.append r) (h2.append r) (h3.append r)
        (h4.append r) ih (h6.append r) ih'

end

/-! ## The end of an object -/

section

variable {D E : Type} {N : Bytes → JSONValue D → Prop} {M : Bytes → JSONValue E → Prop}
  {s t u : Bytes}

/-- Two derivations that start at one brace end at one brace. -/
theorem object_end {v : JSONValue D} {w : JSONValue E} (hN : Numeric N) (hM : Numeric M)
    (h : ValueText N (0x7B :: s) v t) (h' : ValueText M (0x7B :: s) w u) : t = u := by
  rcases h.reading hN with ⟨hclose, -⟩ | ⟨m, ms, hmembers, -⟩
  · rcases h'.reading hM with ⟨hclose', -⟩ | ⟨n, ns, hmembers', -⟩
    · exact (ws_unique hclose hclose' rfl rfl).2
    · exact absurd hclose hmembers'.not_close
  · rcases h'.reading hM with ⟨hclose', -⟩ | ⟨n, ns, hmembers', -⟩
    · exact absurd hclose' hmembers.not_close
    · exact (membersTwin hN hM hmembers _ _ hmembers').1

theorem object_of_brace {v : JSONValue D} (hN : Numeric N) (h : ValueText N (0x7B :: s) v t) :
    v.isObject = true := by
  rcases h.reading hN with ⟨-, rfl⟩ | ⟨m, ms, -, rfl⟩
  · rfl
  · rfl

end

/-! ## Prefixes -/

variable {D : Type} [Double D] [LawfulDouble D]

/-- The numbers without their values. -/
def Numeral (x : Bytes) (_ : JSONValue D) : Prop := NumberText x

omit [Double D] [LawfulDouble D] in
theorem numeric_numeral : Numeric (Numeral (D := D)) := fun _ _ h => h

theorem numeral_double {d : D} {x : Bytes} (h : doubleText d = some x) :
    NumberText x := by
  obtain ⟨hf, rfl⟩ := doubleText_eq h
  exact LawfulDouble.numberText_toChars hf

/-- What is written for a tree is a JSON text, whatever bytes its strings are. -/
theorem written_text (v : JSONValue D) {indent : Int32} {b : Bytes}
    (hb : v.toString indent = some b) (t : Bytes) :
    ∃ w, ValueText (Numeral (D := D)) (b ++ t) w t := by
  have hwrites : ValueWrites (Numeral (D := D)) (fun _ : D => True) (fun _ => .null)
      (fun _ => .null) v :=
    serializeTo_text (fun i _ _ => Integral.numberText_intToString i)
      (fun _ _ _ h => numeral_double h) v
  exact ⟨_, hwrites indent 0 b (clean_repaired v) hb t⟩

omit [LawfulDouble D] in
theorem toString_object {members : List (Bytes × JSONValue D)} {indent : Int32} {b : Bytes}
    (hb : (JSONValue.object members).toString indent = some b) : ∃ s, b = 0x7B :: s := by
  simp only [JSONValue.toString, serializeTo] at hb
  split at hb
  · exact ⟨_, (Option.some.inj hb).symm⟩
  · simp only [Option.bind_eq_bind, Option.bind_eq_some_iff] at hb
    obtain ⟨text, -, hb⟩ := hb
    exact ⟨_, (Option.some.inj hb).symm⟩

omit [LawfulDouble D] in
/-- A JSON text that starts with a brace is one object with whitespace behind it. -/
theorem jsonText_brace {s : Bytes} {v : JSONValue D} (h : JsonText Number (0x7B :: s) v) :
    ∃ t, ValueText Number (0x7B :: s) v t ∧ Ws t [] := by
  obtain ⟨a, t, ha, hv, ht⟩ := h
  obtain ⟨c, cs, rfl, hc, -⟩ := hv.first numeric_number
  obtain ⟨rfl, rfl⟩ := ws_unique .nil ha rfl hc
  exact ⟨t, hv, ht⟩

/-- No proper prefix of the text of an object is accepted. -/
theorem parse_truncated {members : List (Bytes × JSONValue D)} {indent : Int32} {b p q : Bytes}
    (hb : (JSONValue.object members).toString indent = some b) (hp : b = p ++ q) (hq : q ≠ []) :
    (parse p : Option (JSONValue D)) = none := by
  cases hparse : (parse p : Option (JSONValue D)) with
  | none => rfl
  | some v =>
      exfalso
      obtain ⟨-, htext, -⟩ := parse_sound hparse
      obtain ⟨s, hs⟩ := toString_object hb
      obtain ⟨w, hw⟩ := written_text _ hb []
      cases p with
      | nil =>
          obtain ⟨a, t, ha, hv, -⟩ := htext
          have hlength := hv.length_lt
          have hle := ha.length_le
          rw [List.length_nil] at hle
          omega
      | cons c p =>
          rw [hp, List.cons_append] at hs
          obtain ⟨rfl, rfl⟩ := List.cons.inj hs
          obtain ⟨t, hv, -⟩ := jsonText_brace htext
          have hv := hv.append q
          rw [List.append_nil, hp, List.cons_append] at hw
          rw [List.cons_append] at hv
          have hend := object_end numeric_number numeric_numeral hv hw
          exact hq (List.append_eq_nil_iff.mp hend).2

omit [LawfulDouble D] in
/-- What is read from the text of an object is an object. -/
theorem parse_object {members : List (Bytes × JSONValue D)} {indent : Int32} {b : Bytes}
    {v : JSONValue D} (hb : (JSONValue.object members).toString indent = some b)
    (hv : parse b = some v) : v.isObject = true := by
  obtain ⟨s, rfl⟩ := toString_object hb
  obtain ⟨-, htext, -⟩ := parse_sound hv
  obtain ⟨t, hvalue, -⟩ := jsonText_brace htext
  exact object_of_brace numeric_number hvalue

end WebHtop.Common
