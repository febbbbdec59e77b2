import WebHtop.Common.Json.Completeness

/-!
# One text, one tree

A text has one derivation. Two readings of it, with numbers read in two ways, give trees
of the same shape whose numbers stand for the same texts.
-/

namespace WebHtop.Common

open WebHtop.Lib WebHtop.Lib.Json WebHtop.Lib.Decimal JSONValue

/-! ## Tokens -/

theorem numberText_start {x : Bytes} (h : NumberText x) :
    ∃ c cs, x = c :: cs ∧ (c = 0x2D ∨ isDigit c = true) := by
  obtain ⟨sign, i, f, e, rfl, hsign, hi, -⟩ := h
  obtain ⟨c, cs, rfl, hc⟩ := hi.head
  rcases hsign with rfl | rfl
  · exact ⟨c, cs ++ f ++ e, by simp, .inr hc⟩
  · exact ⟨0x2D, c :: cs ++ f ++ e, by simp, .inl rfl⟩

/-- What is left behind a number. -/
def afterNumber (s : Bytes) : Option Bytes := do
  let afterInt ← scanInt (skipSign s)
  let (_, afterFrac) ← scanFrac afterInt
  let (_, after) ← scanExp afterFrac
  some after

theorem afterNumber_numberText {x t : Bytes} (h : NumberText x) (ht : Delimited t) :
    afterNumber (x ++ t) = some t := by
  obtain ⟨sign, i, f, e, rfl, hsign, hi, hf, he⟩ := h
  have hexp : NoDigit (e ++ t) ∧ (f = [] → (e ++ t).head? ≠ some 0x2E) := by
    rcases he with rfl | ⟨c, s, ds, rfl, rfl | rfl, _⟩
    · exact ⟨ht.noDigit, fun _ h => (ht _ h).2.1 rfl⟩
    · exact ⟨fun c hc => by obtain rfl := Option.some.inj hc; rfl, fun _ h => by cases h⟩
    · exact ⟨fun c hc => by obtain rfl := Option.some.inj hc; rfl, fun _ h => by cases h⟩
  have hfrac : NoDigit (f ++ (e ++ t)) := by
    rcases hf with rfl | ⟨ds, rfl, _⟩
    · exact hexp.1
    · exact fun c hc => by obtain rfl := Option.some.inj hc; rfl
  have hscan := scanExp_expPart he ht.noDigit
    fun _ => ⟨fun h => (ht _ h).2.2.1 rfl, fun h => (ht _ h).2.2.2 rfl⟩
  simp only [afterNumber, List.append_assoc, skipSign_sign hsign hi, scanInt_intPart hi hfrac,
    scanFrac_fracPart hf hexp.1 hexp.2, hscan, Option.bind_eq_bind, Option.bind_some]

theorem numberText_unique {x y t u : Bytes} (hx : NumberText x) (hy : NumberText y)
    (h : x ++ t = y ++ u) (ht : Delimited t) (hu : Delimited u) : x = y ∧ t = u := by
  have htu : t = u := by
    have hafter := afterNumber_numberText hx ht
    rw [h, afterNumber_numberText hy hu] at hafter
    exact (Option.some.inj hafter).symm
  subst htu
  exact ⟨List.append_cancel_right h, rfl⟩

theorem ws_unique {s a b : Bytes} {c d : UInt8} (h : Ws s (c :: a)) (h' : Ws s (d :: b))
    (hc : isWhitespace c = false) (hd : isWhitespace d = false) : c = d ∧ a = b := by
  rw [← List.cons.injEq, ← skipWhitespace_eq h hc, skipWhitespace_eq h' hd]

theorem stringBody_unique {s d e t u : Bytes} (h : StringBody s d t) (h' : StringBody s e u) :
    d = e ∧ t = u := by
  have heq := (parseString_of_stringBody h).symm.trans (parseString_of_stringBody h')
  exact Prod.mk.inj (Option.some.inj heq)

/-! ## Two readings -/

variable {D E : Type}

/-- `N` reads nothing but numbers. -/
def Numeric (N : Bytes → JSONValue D → Prop) : Prop := ∀ x v, N x v → NumberText x

mutual

/-- Trees of one text whose numbers are read by `N` and by `M`. -/
inductive Twin (N : Bytes → JSONValue D → Prop) (M : Bytes → JSONValue E → Prop) :
    JSONValue D → JSONValue E → Prop
  | null : Twin N M .null .null
  | bool (b : Bool) : Twin N M (.bool b) (.bool b)
  | number {x : Bytes} {v : JSONValue D} {w : JSONValue E} : N x v → M x w → Twin N M v w
  | string (d : Bytes) : Twin N M (.string d) (.string d)
  | array {vs : List (JSONValue D)} {ws : List (JSONValue E)} :
      TwinItems N M vs ws → Twin N M (.array vs) (.array ws)
  | object {ms : List (Bytes × JSONValue D)} {ns : List (Bytes × JSONValue E)} :
      TwinMembers N M ms ns → Twin N M (.object ms) (.object ns)

inductive TwinItems (N : Bytes → JSONValue D → Prop) (M : Bytes → JSONValue E → Prop) :
    List (JSONValue D) → List (JSONValue E) → Prop
  | nil : TwinItems N M [] []
  | cons {v : JSONValue D} {w : JSONValue E} {vs : List (JSONValue D)} {ws : List (JSONValue E)} :
      Twin N M v w → TwinItems N M vs ws → TwinItems N M (v :: vs) (w :: ws)

inductive TwinMembers (N : Bytes → JSONValue D → Prop) (M : Bytes → JSONValue E → Prop) :
    List (Bytes × JSONValue D) → List (Bytes × JSONValue E) → Prop
  | nil : TwinMembers N M [] []
  | cons {key : Bytes} {v : JSONValue D} {w : JSONValue E} {ms : List (Bytes × JSONValue D)}
      {ns : List (Bytes × JSONValue E)} :
      Twin N M v w → TwinMembers N M ms ns → TwinMembers N M ((key, v) :: ms) ((key, w) :: ns)

end

variable {N : Bytes → JSONValue D → Prop} {M : Bytes → JSONValue E → Prop} {s t u : Bytes}

/-- The first byte of a value. -/
theorem ValueText.first {v : JSONValue D} (hN : Numeric N) (h : ValueText N s v t) :
    ∃ c cs, s = c :: cs ∧ isWhitespace c = false ∧ c ≠ 0x5D := by
  cases h with
  | number hx =>
      obtain ⟨c, cs, rfl, hc⟩ := numberText_start (hN _ _ hx)
      obtain ⟨h1, h2, -⟩ := number_start_ne hc
      exact ⟨c, _, rfl, h1, h2⟩
  | null => exact ⟨_, _, rfl, rfl, by decide⟩
  | boolTrue => exact ⟨_, _, rfl, rfl, by decide⟩
  | boolFalse => exact ⟨_, _, rfl, rfl, by decide⟩
  | string _ => exact ⟨_, _, rfl, rfl, by decide⟩
  | emptyArray _ => exact ⟨_, _, rfl, rfl, by decide⟩
  | array _ => exact ⟨_, _, rfl, rfl, by decide⟩
  | emptyObject _ => exact ⟨_, _, rfl, rfl, by decide⟩
  | object _ => exact ⟨_, _, rfl, rfl, by decide⟩

/-- Whitespace in front of a value is skipped in one way. -/
theorem ValueText.front {v : JSONValue D} {w : JSONValue E} {a b t u : Bytes} (hN : Numeric N)
    (hM : Numeric M) (h : ValueText N a v t) (h' : ValueText M b w u) (hs : Ws s a)
    (hs' : Ws s b) : a = b := by
  obtain ⟨c, cs, rfl, hc, -⟩ := h.first hN
  obtain ⟨d, ds, rfl, hd, -⟩ := h'.first hM
  obtain ⟨rfl, rfl⟩ := ws_unique hs hs' hc hd
  rfl

/-- What the first byte says of the rest. -/
def Reading (M : Bytes → JSONValue E → Prop) (c : UInt8) (s : Bytes) (w : JSONValue E)
    (u : Bytes) : Prop :=
  if c = ch 'n' then c :: s = lit "null" ++ u ∧ w = .null
  else if c = ch 't' then c :: s = lit "true" ++ u ∧ w = .bool true
  else if c = ch 'f' then c :: s = lit "false" ++ u ∧ w = .bool false
  else if c = ch '"' then ∃ d, StringBody s d u ∧ w = .string d
  else if c = ch '[' then
    (Ws s (0x5D :: u) ∧ w = .array []) ∨ ∃ v vs, ItemsText M s (v :: vs) u ∧ w = .array (v :: vs)
  else if c = ch '{' then
    (Ws s (0x7D :: u) ∧ w = .object []) ∨
      ∃ m ms, MembersText M s (m :: ms) u ∧ w = .object (m :: ms)
  else ∃ x, c :: s = x ++ u ∧ M x w

theorem ValueText.reading {c : UInt8} {w : JSONValue E} (hM : Numeric M)
    (h : ValueText M (c :: s) w u) : Reading M c s w u := by
  generalize hs : c :: s = r at h
  cases h with
  | null =>
      obtain ⟨rfl, rfl⟩ := List.cons.inj hs
      exact ⟨rfl, rfl⟩
  | boolTrue =>
      obtain ⟨rfl, rfl⟩ := List.cons.inj hs
      exact ⟨rfl, rfl⟩
  | boolFalse =>
      obtain ⟨rfl, rfl⟩ := List.cons.inj hs
      exact ⟨rfl, rfl⟩
  | number hx =>
      obtain ⟨d, ds, rfl, hd⟩ := numberText_start (hM _ _ hx)
      obtain ⟨rfl, rfl⟩ := List.cons.inj hs
      obtain ⟨-, -, h1, h2, h3, h4, h5, h6⟩ := number_start_ne hd
      rw [Reading, if_neg h1, if_neg h2, if_neg h3, if_neg h4, if_neg h5, if_neg h6]
      exact ⟨_, rfl, hx⟩
  | string hb =>
      obtain ⟨rfl, rfl⟩ := List.cons.inj hs
      exact ⟨_, hb, rfl⟩
  | emptyArray hw =>
      obtain ⟨rfl, rfl⟩ := List.cons.inj hs
      exact .inl ⟨hw, rfl⟩
  | array hi =>
      obtain ⟨rfl, rfl⟩ := List.cons.inj hs
      exact .inr ⟨_, _, hi, rfl⟩
  | emptyObject hw =>
      obtain ⟨rfl, rfl⟩ := List.cons.inj hs
      exact .inl ⟨hw, rfl⟩
  | object hm =>
      obtain ⟨rfl, rfl⟩ := List.cons.inj hs
      exact .inr ⟨_, _, hm, rfl⟩

section

variable (N : Bytes → JSONValue D → Prop) (M : Bytes → JSONValue E → Prop)

def ValueTwin (s : Bytes) (v : JSONValue D) (t : Bytes) : Prop :=
  Delimited t → ∀ w u, ValueText M s w u → Delimited u → t = u ∧ Twin N M v w

def ItemsTwin (s : Bytes) (vs : List (JSONValue D)) (t : Bytes) : Prop :=
  ∀ ws u, ItemsText M s ws u → t = u ∧ TwinItems N M vs ws

def MembersTwin (s : Bytes) (ms : List (Bytes × JSONValue D)) (t : Bytes) : Prop :=
  ∀ ns u, MembersText M s ns u → t = u ∧ TwinMembers N M ms ns

end

theorem ItemsText.not_close {vs : List (JSONValue D)} (hN : Numeric N) (h : ItemsText N s vs t) :
    ¬ Ws s (0x5D :: u) := by
  intro hw
  cases h with
  | last h1 h2 h3 =>
      obtain ⟨c, cs, rfl, hc, hne⟩ := h2.first hN
      exact hne (ws_unique h1 hw hc rfl).1
  | more h1 h2 h3 h4 =>
      obtain ⟨c, cs, rfl, hc, hne⟩ := h2.first hN
      exact hne (ws_unique h1 hw hc rfl).1

theorem MembersText.not_close {ms : List (Bytes × JSONValue D)} (h : MembersText N s ms t) :
    ¬ Ws s (0x7D :: u) := by
  intro hw
  cases h with
  | last h1 h2 h3 h4 h5 h6 => exact absurd (ws_unique h1 hw rfl rfl).1 (by decide)
  | more h1 h2 h3 h4 h5 h6 h7 => exact absurd (ws_unique h1 hw rfl rfl).1 (by decide)

theorem number_twin {x : Bytes} {v : JSONValue D} (hN : Numeric N) (hM : Numeric M) (h : N x v) :
    ValueTwin N M (x ++ t) v t := by
  intro ht w u h' hu
  obtain ⟨c, cs, rfl, hc⟩ := numberText_start (hN _ _ h)
  obtain ⟨-, -, h1, h2, h3, h4, h5, h6⟩ := number_start_ne hc
  have hread := ValueText.reading hM h'
  rw [Reading, if_neg h1, if_neg h2, if_neg h3, if_neg h4, if_neg h5, if_neg h6] at hread
  obtain ⟨y, heq, hy⟩ := hread
  obtain ⟨rfl, rfl⟩ := numberText_unique (hN _ _ h) (hM _ _ hy) heq ht hu
  exact ⟨rfl, .number h hy⟩

theorem array_twin {v : JSONValue D} {vs : List (JSONValue D)} (hN : Numeric N) (hM : Numeric M)
    (h : ItemsText N s (v :: vs) t) (ih : ItemsTwin N M s (v :: vs) t) :
    ValueTwin N M (0x5B :: s) (.array (v :: vs)) t := by
  intro _ w u h' _
  rcases h'.reading hM with ⟨hw, -⟩ | ⟨w', ws, hi, rfl⟩
  · exact absurd hw (h.not_close hN)
  · obtain ⟨rfl, hitems⟩ := ih _ _ hi
    exact ⟨rfl, .array hitems⟩

theorem emptyArray_twin (hM : Numeric M) (h : Ws s (0x5D :: t)) :
    ValueTwin N M (0x5B :: s) (.array []) t := by
  intro _ w u h' _
  rcases h'.reading hM with ⟨hw, rfl⟩ | ⟨w', ws, hi, rfl⟩
  · exact ⟨(ws_unique h hw rfl rfl).2, .array .nil⟩
  · exact absurd h (hi.not_close hM)

theorem object_twin {m : Bytes × JSONValue D} {ms : List (Bytes × JSONValue D)} (hM : Numeric M)
    (h : MembersText N s (m :: ms) t) (ih : MembersTwin N M s (m :: ms) t) :
    ValueTwin N M (0x7B :: s) (.object (m :: ms)) t := by
  intro _ w u h' _
  rcases h'.reading hM with ⟨hw, -⟩ | ⟨n, ns, hm, rfl⟩
  · exact absurd hw h.not_close
  · obtain ⟨rfl, hmembers⟩ := ih _ _ hm
    exact ⟨rfl, .object hmembers⟩

theorem emptyObject_twin (hM : Numeric M) (h : Ws s (0x7D :: t)) :
    ValueTwin N M (0x7B :: s) (.object []) t := by
  intro _ w u h' _
  rcases h'.reading hM with ⟨hw, rfl⟩ | ⟨n, ns, hm, rfl⟩
  · exact ⟨(ws_unique h hw rfl rfl).2, .object .nil⟩
  · exact absurd h hm.not_close

theorem lastItem_twin {v : JSONValue D} {a b : Bytes} (hN : Numeric N) (hM : Numeric M)
    (h1 : Ws s a) (h2 : ValueText N a v b) (h3 : Ws b (0x5D :: t)) (ih : ValueTwin N M a v b) :
    ItemsTwin N M s [v] t := by
  intro ws u h'
  cases h' with
  | last h1' h2' h3' =>
      obtain rfl := h2.front hN hM h2' h1 h1'
      obtain ⟨rfl, htwin⟩ := ih (delimited_of_ws h3 (by decide)) _ _ h2'
        (delimited_of_ws h3' (by decide))
      exact ⟨(ws_unique h3 h3' rfl rfl).2, .cons htwin .nil⟩
  | more h1' h2' h3' h4' =>
      obtain rfl := h2.front hN hM h2' h1 h1'
      obtain ⟨rfl, -⟩ := ih (delimited_of_ws h3 (by decide)) _ _ h2'
        (delimited_of_ws h3' (by decide))
      exact absurd (ws_unique h3 h3' rfl rfl).1 (by decide)

theorem moreItems_twin {v : JSONValue D} {vs : List (JSONValue D)} {a b c : Bytes}
    (hN : Numeric N) (hM : Numeric M) (h1 : Ws s a) (h2 : ValueText N a v b)
    (h3 : Ws b (0x2C :: c)) (ih : ValueTwin N M a v b) (ih' : ItemsTwin N M c vs t) :
    ItemsTwin N M s (v :: vs) t := by
  intro ws u h'
  cases h' with
  | last h1' h2' h3' =>
      obtain rfl := h2.front hN hM h2' h1 h1'
      obtain ⟨rfl, -⟩ := ih (delimited_of_ws h3 (by decide)) _ _ h2'
        (delimited_of_ws h3' (by decide))
      exact absurd (ws_unique h3 h3' rfl rfl).1 (by decide)
  | more h1' h2' h3' h4' =>
      obtain rfl := h2.front hN hM h2' h1 h1'
      obtain ⟨rfl, htwin⟩ := ih (delimited_of_ws h3 (by decide)) _ _ h2'
        (delimited_of_ws h3' (by decide))
      obtain rfl := (ws_unique h3 h3' rfl rfl).2
      obtain ⟨rfl, hitems⟩ := ih' _ _ h4'
      exact ⟨rfl, .cons htwin hitems⟩

/-- A member up to the end of its value. -/
theorem member_twin {v : JSONValue D} {w : JSONValue E} {a b c d e a' b' c' d' e' k k' : Bytes}
    (hN : Numeric N) (hM : Numeric M) (h1 : Ws s (0x22 :: a)) (h2 : StringBody a k b)
    (h3 : Ws b (0x3A :: c)) (h4 : Ws c d) (h5 : ValueText N d v e) (he : Delimited e)
    (ih : ValueTwin N M d v e) (h1' : Ws s (0x22 :: a')) (h2' : StringBody a' k' b')
    (h3' : Ws b' (0x3A :: c')) (h4' : Ws c' d') (h5' : ValueText M d' w e') (he' : Delimited e') :
    k = k' ∧ e = e' ∧ Twin N M v w := by
  obtain rfl := (ws_unique h1 h1' rfl rfl).2
  obtain ⟨rfl, rfl⟩ := stringBody_unique h2 h2'
  obtain rfl := (ws_unique h3 h3' rfl rfl).2
  obtain rfl := h5.front hN hM h5' h4 h4'
  exact ⟨rfl, ih he _ _ h5' he'⟩

theorem lastMember_twin {v : JSONValue D} {a b c d e k : Bytes} (hN : Numeric N) (hM : Numeric M)
    (h1 : Ws s (0x22 :: a)) (h2 : StringBody a k b) (h3 : Ws b (0x3A :: c)) (h4 : Ws c d)
    (h5 : ValueText N d v e) (h6 : Ws e (0x7D :: t)) (ih : ValueTwin N M d v e) :
    MembersTwin N M s [(k, v)] t := by
  intro ns u h'
  have he := delimited_of_ws h6 (by decide)
  cases h' with
  | last h1' h2' h3' h4' h5' h6' =>
      obtain ⟨rfl, rfl, htwin⟩ := member_twin hN hM h1 h2 h3 h4 h5 he ih h1' h2' h3' h4' h5'
        (delimited_of_ws h6' (by decide))
      exact ⟨(ws_unique h6 h6' rfl rfl).2, .cons htwin .nil⟩
  | more h1' h2' h3' h4' h5' h6' h7' =>
      obtain ⟨rfl, rfl, -⟩ := member_twin hN hM h1 h2 h3 h4 h5 he ih h1' h2' h3' h4' h5'
        (delimited_of_ws h6' (by decide))
      exact absurd (ws_unique h6 h6' rfl rfl).1 (by decide)

theorem moreMembers_twin {v : JSONValue D} {ms : List (Bytes × JSONValue D)}
    {a b c d e f k : Bytes} (hN : Numeric N) (hM : Numeric M) (h1 : Ws s (0x22 :: a))
    (h2 : StringBody a k b) (h3 : Ws b (0x3A :: c)) (h4 : Ws c d) (h5 : ValueText N d v e)
    (h6 : Ws e (0x2C :: f)) (ih : ValueTwin N M d v e) (ih' : MembersTwin N M f ms t) :
    MembersTwin N M s ((k, v) :: ms) t := by
  intro ns u h'
  have he := delimited_of_ws h6 (by decide)
  cases h' with
  | last h1' h2' h3' h4' h5' h6' =>
      obtain ⟨rfl, rfl, -⟩ := member_twin hN hM h1 h2 h3 h4 h5 he ih h1' h2' h3' h4' h5'
        (delimited_of_ws h6' (by decide))
      exact absurd (ws_unique h6 h6' rfl rfl).1 (by decide)
  | more h1' h2' h3' h4' h5' h6' h7' =>
      obtain ⟨rfl, rfl, htwin⟩ := member_twin hN hM h1 h2 h3 h4 h5 he ih h1' h2' h3' h4' h5'
        (delimited_of_ws h6' (by decide))
      obtain rfl := (ws_unique h6 h6' rfl rfl).2
      obtain ⟨rfl, hmembers⟩ := ih' _ _ h7'
      exact ⟨rfl, .cons htwin hmembers⟩

/-- Every derivation of a value meets every other one. -/
theorem valueTwin (hN : Numeric N) (hM : Numeric M) {v : JSONValue D} (h : ValueText N s v t) :
    ValueTwin N M s v t := by
  refine @ValueText.rec D N (fun s v t _ => ValueTwin N M s v t) (fun s vs t _ => ItemsTwin N M s vs t)
    (fun s ms t _ => MembersTwin N M s ms t)
    ?null ?true ?false ?number ?string ?emptyArray ?array ?emptyObject ?object ?lastItem ?moreItems
    ?lastMember ?moreMembers s v t h
  case null =>
      intro t _ w u h' _
      obtain ⟨heq, rfl⟩ := h'.reading hM
      have heq : lit "null" ++ t = lit "null" ++ u := heq
      exact ⟨List.append_cancel_left heq, .null⟩
  case true =>
      intro t _ w u h' _
      obtain ⟨heq, rfl⟩ := h'.reading hM
      have heq : lit "true" ++ t = lit "true" ++ u := heq
      exact ⟨List.append_cancel_left heq, .bool true⟩
  case false =>
      intro t _ w u h' _
      obtain ⟨heq, rfl⟩ := h'.reading hM
      have heq : lit "false" ++ t = lit "false" ++ u := heq
      exact ⟨List.append_cancel_left heq, .bool false⟩
  case number => exact number_twin hN hM
  case string =>
      intro s d t hb _ w u h' _
      obtain ⟨e, hb', rfl⟩ := h'.reading hM
      obtain ⟨rfl, rfl⟩ := stringBody_unique hb hb'
      exact ⟨rfl, .string _⟩
  case emptyArray => exact emptyArray_twin hM
  case array => exact array_twin hN hM
  case emptyObject => exact emptyObject_twin hM
  case object => exact object_twin hM
  case lastItem => exact lastItem_twin hN hM
  case moreItems => exact fun h1 h2 h3 _ ih ih' => moreItems_twin hN hM h1 h2 h3 ih ih'
  case lastMember => exact lastMember_twin hN hM
  case moreMembers =>
      exact fun h1 h2 h3 h4 h5 h6 _ ih ih' => moreMembers_twin hN hM h1 h2 h3 h4 h5 h6 ih ih'

/-- Every derivation of members meets every other one. -/
theorem membersTwin (hN : Numeric N) (hM : Numeric M) {ms : List (Bytes × JSONValue D)}
    (h : MembersText N s ms t) : MembersTwin N M s ms t := by
  induction ms generalizing s with
  | nil => cases h
  | cons m ms ih =>
      cases h with
      | last h1 h2 h3 h4 h5 h6 =>
          exact lastMember_twin hN hM h1 h2 h3 h4 h5 h6 (valueTwin hN hM h5)
      | more h1 h2 h3 h4 h5 h6 h7 =>
          exact moreMembers_twin hN hM h1 h2 h3 h4 h5 h6 (valueTwin hN hM h5) (ih h7)

/-- Two readings of a text. -/
theorem JsonText.twin {v : JSONValue D} {w : JSONValue E} {x : Bytes} (hN : Numeric N)
    (hM : Numeric M) (h : JsonText N x v) (h' : JsonText M x w) : Twin N M v w := by
  obtain ⟨a, b, hs, hv, hb⟩ := h
  obtain ⟨a', b', hs', hv', hb'⟩ := h'
  obtain rfl := hv.front hN hM hv' hs hs'
  exact (valueTwin hN hM hv (delimited_of_end hb) _ _ hv' (delimited_of_end hb')).2

end WebHtop.Common
