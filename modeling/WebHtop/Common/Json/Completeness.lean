import WebHtop.Common.Json.Soundness

/-!
# The parser accepts every JSON text within its limits

By induction on the derivation of the text. The fuel is four units a byte: a level of
the recursion takes four calls and reads a bracket, a turn of a loop takes one and reads
a comma.
-/

namespace WebHtop.Common

open WebHtop.Lib WebHtop.Lib.Json WebHtop.Lib.Decimal

variable {D : Type} [Double D]

open JSONValue

/-! ## The ends of a text -/

theorem Number.start {x : Bytes} {v : JSONValue D} (h : Number x v) :
    ∃ c cs, x = c :: cs ∧ (c = 0x2D ∨ isDigit c = true) := by
  obtain ⟨sign, i, f, e, rfl, hsign, hi, -⟩ := number_convert h
  obtain ⟨c, cs, rfl, hc⟩ := hi.head
  rcases hsign with rfl | rfl
  · exact ⟨c, cs ++ f ++ e, by simp, .inr hc⟩
  · exact ⟨0x2D, c :: cs ++ f ++ e, by simp, .inl rfl⟩

/-- A number starts like no other value. -/
theorem number_start_ne {c : UInt8} (h : c = 0x2D ∨ isDigit c = true) :
    isWhitespace c = false ∧ c ≠ 0x5D ∧ c ≠ ch 'n' ∧ c ≠ ch 't' ∧ c ≠ ch 'f' ∧ c ≠ ch '"' ∧
      c ≠ ch '[' ∧ c ≠ ch '{' := by
  have hr : 45 ≤ c.toNat ∧ c.toNat ≤ 57 := by
    rcases h with rfl | h
    · decide
    · simp only [isDigit, Bool.and_eq_true, decide_eq_true_eq] at h
      omega
  have hne (k : UInt8) (hk : k.toNat < 45 ∨ 57 < k.toNat) : c ≠ k := by
    rintro rfl
    omega
  refine ⟨?_, hne _ (by decide), hne _ (by decide), hne _ (by decide), hne _ (by decide),
    hne _ (by decide), hne _ (by decide), hne _ (by decide)⟩
  simp only [isWhitespace, Bool.or_eq_false_iff, decide_eq_false_iff_not]
  exact ⟨⟨⟨hne _ (by decide), hne _ (by decide)⟩, hne _ (by decide)⟩, hne _ (by decide)⟩

/-- The first byte of a value is not whitespace and closes nothing. -/
theorem ValueText.start {s t : Bytes} {v : JSONValue D} (h : ValueText Number s v t) :
    ∃ c cs, s = c :: cs ∧ isWhitespace c = false ∧ c ≠ 0x5D := by
  cases h with
  | null => exact ⟨_, _, rfl, rfl, by decide⟩
  | boolTrue => exact ⟨_, _, rfl, rfl, by decide⟩
  | boolFalse => exact ⟨_, _, rfl, rfl, by decide⟩
  | number hx =>
      obtain ⟨c, cs, rfl, hc⟩ := hx.start
      obtain ⟨h1, h2, -⟩ := number_start_ne hc
      exact ⟨c, _, rfl, h1, h2⟩
  | string _ => exact ⟨_, _, rfl, rfl, by decide⟩
  | emptyArray _ => exact ⟨_, _, rfl, rfl, by decide⟩
  | array _ => exact ⟨_, _, rfl, rfl, by decide⟩
  | emptyObject _ => exact ⟨_, _, rfl, rfl, by decide⟩
  | object _ => exact ⟨_, _, rfl, rfl, by decide⟩

theorem ValueText.skip {r s t : Bytes} {v : JSONValue D} (h : ValueText Number s v t) (hr : Ws r s) :
    skipWhitespace r = s := by
  obtain ⟨c, cs, rfl, hc, -⟩ := h.start
  exact skipWhitespace_eq hr hc

theorem ItemsText.skip {s t : Bytes} {vs : List (JSONValue D)} (h : ItemsText Number s vs t) :
    ItemsText Number (skipWhitespace s) vs t ∧ (skipWhitespace s).head? ≠ some (ch ']') := by
  cases h with
  | last h1 h2 h3 =>
      obtain ⟨c, cs, rfl, hc, hne⟩ := h2.start
      rw [skipWhitespace_eq h1 hc]
      exact ⟨.last .nil h2 h3, fun h => hne (Option.some.inj h)⟩
  | more h1 h2 h3 h4 =>
      obtain ⟨c, cs, rfl, hc, hne⟩ := h2.start
      rw [skipWhitespace_eq h1 hc]
      exact ⟨.more .nil h2 h3 h4, fun h => hne (Option.some.inj h)⟩

theorem MembersText.skip {s t : Bytes} {ms : List (Bytes × JSONValue D)} (h : MembersText Number s ms t) :
    MembersText Number (skipWhitespace s) ms t ∧ (skipWhitespace s).head? ≠ some (ch '}') := by
  cases h with
  | last h1 h2 h3 h4 h5 h6 =>
      rw [skipWhitespace_eq h1 rfl]
      exact ⟨.last .nil h2 h3 h4 h5 h6, by simp [ch]⟩
  | more h1 h2 h3 h4 h5 h6 h7 =>
      rw [skipWhitespace_eq h1 rfl]
      exact ⟨.more .nil h2 h3 h4 h5 h6 h7, by simp [ch]⟩

theorem delimited_whitespace {c : UInt8} (h : isWhitespace c = true) (cs : Bytes) :
    Delimited (c :: cs) := by
  intro d hd
  obtain rfl := Option.some.inj hd
  simp only [isWhitespace, Bool.or_eq_true, decide_eq_true_eq] at h
  rcases h with ((rfl | rfl) | rfl) | rfl <;> decide

/-- Whitespace and a byte that ends a component end a number too. -/
theorem delimited_of_ws {s t : Bytes} {c : UInt8} (h : Ws s (c :: t))
    (hc : c = 0x2C ∨ c = 0x5D ∨ c = 0x7D) : Delimited s := by
  cases h with
  | nil =>
      intro d hd
      obtain rfl := Option.some.inj hd
      rcases hc with rfl | rfl | rfl <;> decide
  | cons hw _ => exact delimited_whitespace hw _

theorem delimited_of_end {s : Bytes} (h : Ws s []) : Delimited s := by
  cases h with
  | nil => exact fun d hd => nomatch hd
  | cons hw _ => exact delimited_whitespace hw _

/-! ## Lengths -/

theorem length_lt_keyword {text t : Bytes} (h : text ≠ []) : t.length < (text ++ t).length := by
  have := List.length_pos_iff.mpr h
  rw [List.length_append]
  omega

/-- Every value and every component takes bytes off the text. -/
theorem ValueText.length_lt {s t : Bytes} {v : JSONValue D} (h : ValueText Number s v t) :
    t.length < s.length := by
  refine @ValueText.rec D Number (fun s _ t _ => t.length < s.length)
    (fun s _ t _ => t.length < s.length) (fun s _ t _ => t.length < s.length)
    ?null ?true ?false ?number ?string ?emptyArray ?array ?emptyObject ?object ?lastItem ?moreItems
    ?lastMember ?moreMembers s v t h
  case null => exact length_lt_keyword (by decide)
  case true => exact length_lt_keyword (by decide)
  case false => exact length_lt_keyword (by decide)
  case number =>
      intro x t v hx
      obtain ⟨c, cs, rfl, -⟩ := hx.start
      simp
  case string => exact fun hs => Nat.lt_succ_of_lt hs.length_lt
  case emptyArray => exact fun hs => Nat.lt_succ_of_lt hs.length_le
  case array => exact fun _ ih => Nat.lt_succ_of_lt ih
  case emptyObject => exact fun hs => Nat.lt_succ_of_lt hs.length_le
  case object => exact fun _ ih => Nat.lt_succ_of_lt ih
  case lastItem =>
      intro s a b t v h1 _ h3 ih
      have := h1.length_le
      have := h3.length_le
      simp only [List.length_cons] at this
      omega
  case moreItems =>
      intro s a b c t v vs h1 _ h3 _ ih ih'
      have := h1.length_le
      have := h3.length_le
      simp only [List.length_cons] at this
      omega
  case lastMember =>
      intro s a b c d e t k v h1 h2 h3 h4 _ h6 ih
      have := h1.length_le
      have := h2.length_lt
      have := h3.length_le
      have := h4.length_le
      have := h6.length_le
      simp only [List.length_cons] at *
      omega
  case moreMembers =>
      intro s a b c d e f t k v ms h1 h2 h3 h4 _ h6 _ ih ih'
      have := h1.length_le
      have := h2.length_lt
      have := h3.length_le
      have := h4.length_le
      have := h6.length_le
      simp only [List.length_cons] at *
      omega

/-! ## One step of each function -/

theorem parseValue_of_switch {fuel d n n' : Nat} {r s t : Bytes} {v : JSONValue D} (hd : d < 64)
    (hn : n < 1000000) (hs : skipWhitespace r = s)
    (h : parseSwitch fuel ⟨s, d + 1, n + 1⟩ = (some v, ⟨t, d + 1, n'⟩)) :
    parseValue (fuel + 1) ⟨r, d, n⟩ = (some v, ⟨t, d, n'⟩) := by
  simp only [parseValue]
  rw [if_neg (by omega), if_neg (by omega), hs, h]
  rfl

theorem parseArray_of_items {fuel d n : Nat} {s : Bytes}
    (hs : (skipWhitespace s).head? ≠ some (ch ']')) :
    parseArray (D := D) (fuel + 1) ⟨0x5B :: s, d, n⟩ = parseItems fuel [] ⟨skipWhitespace s, d, n⟩ := by
  simp only [parseArray]
  rw [if_pos (show (0x5B : UInt8) = ch '[' from rfl), if_neg hs]

theorem parseItems_last {fuel : Nat} {arr : List (JSONValue D)} {st st' : ParserState}
    {v : JSONValue D} {t : Bytes} (hv : parseValue fuel st = (some v, st'))
    (ht : skipWhitespace st'.rest = 0x5D :: t) :
    parseItems (fuel + 1) arr st = (some (.array (arr ++ [v])), { st' with rest := t }) := by
  simp only [parseItems, hv, ht]
  rfl

theorem parseItems_more {fuel : Nat} {arr : List (JSONValue D)} {st st' : ParserState}
    {v : JSONValue D} {c : Bytes} (hv : parseValue fuel st = (some v, st'))
    (hc : skipWhitespace st'.rest = 0x2C :: c) (hn : (skipWhitespace c).head? ≠ some (ch ']')) :
    parseItems (fuel + 1) arr st =
      parseItems fuel (arr ++ [v]) { st' with rest := skipWhitespace c } := by
  simp only [parseItems, hv, hc]
  rw [if_neg (show ¬ (0x2C : UInt8) = ch ']' by decide),
    if_pos (show (0x2C : UInt8) = ch ',' from rfl), if_neg hn]

theorem parseObject_of_members {fuel d n : Nat} {s : Bytes}
    (hs : (skipWhitespace s).head? ≠ some (ch '}')) :
    parseObject (D := D) (fuel + 1) ⟨0x7B :: s, d, n⟩ =
      parseMembers fuel [] ⟨skipWhitespace s, d, n⟩ := by
  simp only [parseObject]
  rw [if_pos (show (0x7B : UInt8) = ch '{' from rfl), if_neg hs]

/-- A member up to its value. -/
structure MemberAt (fuel : Nat) (obj : List (Bytes × JSONValue D)) (st : ParserState) (key : Bytes)
    (v : JSONValue D) (st' : ParserState) : Prop where
  read : ∃ rest c, parseString (skipWhitespace st.rest) = some (key, rest) ∧
    skipWhitespace rest = 0x3A :: c ∧
    parseValue fuel { st with rest := skipWhitespace c } = (some v, st')
  room : obj.length < 4096
  fresh : key ∉ obj.map Prod.fst

theorem parseMembers_last {fuel : Nat} {obj : List (Bytes × JSONValue D)} {st st' : ParserState}
    {key t : Bytes} {v : JSONValue D} (h : MemberAt fuel obj st key v st')
    (ht : skipWhitespace st'.rest = 0x7D :: t) :
    parseMembers (fuel + 1) obj st =
      (some (.object (obj ++ [(key, v)])), { st' with rest := t }) := by
  obtain ⟨⟨rest, c, hk, hc, hv⟩, hroom, hfresh⟩ := h
  simp only [parseMembers, hk]
  rw [if_neg (not_or.mpr ⟨Nat.not_le.mpr hroom, hfresh⟩)]
  simp only [hc, hv, ht]
  rfl

theorem parseMembers_more {fuel : Nat} {obj : List (Bytes × JSONValue D)} {st st' : ParserState}
    {key f : Bytes} {v : JSONValue D} (h : MemberAt fuel obj st key v st')
    (hf : skipWhitespace st'.rest = 0x2C :: f) (hn : (skipWhitespace f).head? ≠ some (ch '}')) :
    parseMembers (fuel + 1) obj st =
      parseMembers fuel (obj ++ [(key, v)]) { st' with rest := skipWhitespace f } := by
  obtain ⟨⟨rest, c, hk, hc, hv⟩, hroom, hfresh⟩ := h
  simp only [parseMembers, hk]
  rw [if_neg (not_or.mpr ⟨Nat.not_le.mpr hroom, hfresh⟩)]
  simp only [hc, hv, hf]
  rw [if_pos (show (0x3A : UInt8) = ch ':' from rfl), if_neg (show ¬ (0x2C : UInt8) = ch '}' by decide),
    if_pos (show (0x2C : UInt8) = ch ',' from rfl), if_neg hn]

/-! ## Along the derivation -/

def ValueReads (s : Bytes) (v : JSONValue D) (t : Bytes) : Prop :=
  ∀ fuel d n r, Ws r s → 4 * r.length ≤ fuel → Delimited t → d + v.depth ≤ 64 →
    n + v.nodes ≤ 1000000 → v.KeysWithin 4096 →
    parseValue fuel ⟨r, d, n⟩ = (some v, ⟨t, d, n + v.nodes⟩)

def ItemsReads (s : Bytes) (vs : List (JSONValue D)) (t : Bytes) : Prop :=
  ∀ fuel arr d n r, skipWhitespace r = skipWhitespace s → 4 * r.length < fuel →
    d + depthItems vs ≤ 64 → n + nodesItems vs ≤ 1000000 → KeysWithinItems 4096 vs →
    parseItems fuel arr ⟨r, d, n⟩ = (some (.array (arr ++ vs)), ⟨t, d, n + nodesItems vs⟩)

def MembersReads (s : Bytes) (ms : List (Bytes × JSONValue D)) (t : Bytes) : Prop :=
  ∀ fuel obj d n r, skipWhitespace r = skipWhitespace s → 4 * r.length < fuel →
    d + depthMembers ms ≤ 64 → n + nodesMembers ms ≤ 1000000 → KeysWithinMembers 4096 ms →
    ((obj ++ ms).map Prod.fst).Nodup → (obj ++ ms).length ≤ 4096 →
    parseMembers fuel obj ⟨r, d, n⟩ = (some (.object (obj ++ ms)), ⟨t, d, n + nodesMembers ms⟩)

/-- The two calls between ParseValue and the code for one kind of value. -/
theorem valueReads_of_body {s t : Bytes} {v : JSONValue D} (htext : ValueText Number s v t)
    (body : ∀ fuel d n, 4 * s.length ≤ fuel + 2 → d + v.depth ≤ 65 → n + v.nodes ≤ 1000001 →
      v.KeysWithin 4096 → Delimited t →
      parseSwitch (fuel + 1) ⟨s, d, n⟩ = (some v, ⟨t, d, n + v.nodes - 1⟩)) :
    ValueReads s v t := by
  intro fuel d n r hr hf ht hd hn hkeys
  have hlength := htext.length_lt
  have hle := hr.length_le
  have h1 := v.one_le_nodes
  have h2 := v.one_le_depth
  obtain ⟨fuel, rfl⟩ := Nat.exists_eq_add_of_le' (show 2 ≤ fuel by omega)
  have h := body fuel (d + 1) (n + 1) (by omega) (by omega) (by omega) hkeys ht
  rw [show n + 1 + v.nodes - 1 = n + v.nodes by omega] at h
  exact parseValue_of_switch (by omega) (by omega) (htext.skip hr) h

theorem valueReads_leaf {s t : Bytes} {v : JSONValue D} (htext : ValueText Number s v t)
    (hv : v.nodes = 1) (body : ∀ fuel d n, Delimited t →
      parseSwitch (fuel + 1) ⟨s, d, n⟩ = (some v, ⟨t, d, n⟩)) : ValueReads s v t := by
  refine valueReads_of_body htext fun fuel d n _ _ _ _ ht => ?_
  rw [hv, Nat.add_sub_cancel]
  exact body fuel d n ht

omit [Double D] in
theorem keyword_reads {text t : Bytes} {v : JSONValue D} (d n : Nat) :
    keyword text v ⟨text ++ t, d, n⟩ = (some v, ⟨t, d, n⟩) := by
  simp [keyword]

theorem number_reads {x t : Bytes} {v : JSONValue D} (h : Number x v) :
    ValueReads (x ++ t) v t := by
  refine valueReads_leaf (.number h) h.leaf.1.1 fun fuel d n ht => ?_
  obtain ⟨c, cs, rfl, hc⟩ := h.start
  obtain ⟨-, -, h1, h2, h3, h4, h5, h6⟩ := number_start_ne hc
  simp only [List.cons_append, parseSwitch]
  rw [if_neg h1, if_neg h2, if_neg h3, if_neg h4, if_neg h5, if_neg h6,
    if_pos (show c = ch '-' ∨ isDigit c = true from hc), ← List.cons_append, parseNumber_number h ht]
  rfl

theorem string_reads {s d t : Bytes} (h : StringBody s d t) :
    ValueReads (0x22 :: s) (.string d : JSONValue D) t := by
  refine valueReads_leaf (.string h) (by simp [nodes]) fun fuel dp n _ => ?_
  have hs : parseSwitch (D := D) (fuel + 1) ⟨0x22 :: s, dp, n⟩ =
    token (parseString (0x22 :: s)) .string ⟨0x22 :: s, dp, n⟩ := rfl
  rw [hs, parseString_of_stringBody h]
  rfl

theorem array_reads {s t : Bytes} {v : JSONValue D} {vs : List (JSONValue D)}
    (h : ItemsText Number s (v :: vs) t) (ih : ItemsReads s (v :: vs) t) :
    ValueReads (0x5B :: s) (.array (v :: vs)) t := by
  refine valueReads_of_body (.array h) fun fuel d n hf hd hn hkeys _ => ?_
  simp only [List.length_cons, nodes, depth, KeysWithin] at hf hd hn hkeys ⊢
  obtain ⟨fuel, rfl⟩ := Nat.exists_eq_add_one_of_ne_zero (by omega : fuel ≠ 0)
  have hle := length_skipWhitespace_le s
  have hs : parseSwitch (D := D) (fuel + 1 + 1) ⟨0x5B :: s, d, n⟩ =
    parseArray (fuel + 1) ⟨0x5B :: s, d, n⟩ := rfl
  rw [hs, parseArray_of_items h.skip.2]
  exact ih fuel [] d n _ (skipWhitespace_idem s) (by omega) (by omega) (by omega) hkeys

theorem object_reads {s t : Bytes} {m : Bytes × JSONValue D} {ms : List (Bytes × JSONValue D)}
    (h : MembersText Number s (m :: ms) t) (ih : MembersReads s (m :: ms) t) :
    ValueReads (0x7B :: s) (.object (m :: ms)) t := by
  refine valueReads_of_body (.object h) fun fuel d n hf hd hn hkeys _ => ?_
  simp only [List.length_cons, nodes, depth, KeysWithin] at hf hd hn hkeys ⊢
  obtain ⟨hnodup, hlength, hkeys⟩ := hkeys
  obtain ⟨fuel, rfl⟩ := Nat.exists_eq_add_one_of_ne_zero (by omega : fuel ≠ 0)
  have hle := length_skipWhitespace_le s
  have hs : parseSwitch (D := D) (fuel + 1 + 1) ⟨0x7B :: s, d, n⟩ =
    parseObject (fuel + 1) ⟨0x7B :: s, d, n⟩ := rfl
  rw [hs, parseObject_of_members h.skip.2]
  exact ih fuel [] d n _ (skipWhitespace_idem s) (by omega) (by omega) (by omega) hkeys hnodup hlength

theorem emptyArray_reads {s t : Bytes} (h : Ws s (0x5D :: t)) :
    ValueReads (0x5B :: s) (.array [] : JSONValue D) t := by
  refine valueReads_of_body (.emptyArray h) fun fuel d n hf _ _ _ _ => ?_
  simp only [List.length_cons] at hf
  have := h.length_le
  simp only [List.length_cons] at this
  obtain ⟨fuel, rfl⟩ := Nat.exists_eq_add_one_of_ne_zero (by omega : fuel ≠ 0)
  have hs : parseSwitch (D := D) (fuel + 1 + 1) ⟨0x5B :: s, d, n⟩ =
    parseArray (fuel + 1) ⟨0x5B :: s, d, n⟩ := rfl
  rw [hs]
  simp only [parseArray, skipWhitespace_eq h rfl]
  rfl

theorem emptyObject_reads {s t : Bytes} (h : Ws s (0x7D :: t)) :
    ValueReads (0x7B :: s) (.object [] : JSONValue D) t := by
  refine valueReads_of_body (.emptyObject h) fun fuel d n hf _ _ _ _ => ?_
  simp only [List.length_cons] at hf
  have := h.length_le
  simp only [List.length_cons] at this
  obtain ⟨fuel, rfl⟩ := Nat.exists_eq_add_one_of_ne_zero (by omega : fuel ≠ 0)
  have hs : parseSwitch (D := D) (fuel + 1 + 1) ⟨0x7B :: s, d, n⟩ =
    parseObject (fuel + 1) ⟨0x7B :: s, d, n⟩ := rfl
  rw [hs]
  simp only [parseObject, skipWhitespace_eq h rfl]
  rfl

theorem lastItem_reads {s a b t : Bytes} {v : JSONValue D} (h1 : Ws s a) (h2 : ValueText Number a v b)
    (h3 : Ws b (0x5D :: t)) (ih : ValueReads a v b) : ItemsReads s [v] t := by
  intro fuel arr d n r hr hf hd hn hkeys
  simp only [depthItems, nodesItems, KeysWithinItems] at hd hn hkeys ⊢
  obtain ⟨fuel, rfl⟩ := Nat.exists_eq_add_one_of_ne_zero (by omega : fuel ≠ 0)
  have hra : Ws r a := by
    have := ws_skipWhitespace r
    rwa [hr, h2.skip h1] at this
  have hv := ih fuel d n r hra (by omega) (delimited_of_ws h3 (.inr (.inl rfl))) (by omega)
    (by omega) hkeys.1
  rw [parseItems_last hv (skipWhitespace_eq h3 rfl), Nat.add_zero]

theorem moreItems_reads {s a b c t : Bytes} {v : JSONValue D} {vs : List (JSONValue D)}
    (h1 : Ws s a) (h2 : ValueText Number a v b) (h3 : Ws b (0x2C :: c)) (h4 : ItemsText Number c vs t)
    (ih : ValueReads a v b) (ih' : ItemsReads c vs t) : ItemsReads s (v :: vs) t := by
  intro fuel arr d n r hr hf hd hn hkeys
  simp only [depthItems, nodesItems, KeysWithinItems] at hd hn hkeys ⊢
  obtain ⟨fuel, rfl⟩ := Nat.exists_eq_add_one_of_ne_zero (by omega : fuel ≠ 0)
  have hra : Ws r a := by
    have := ws_skipWhitespace r
    rwa [hr, h2.skip h1] at this
  have hv := ih fuel d n r hra (by omega) (delimited_of_ws h3 (.inl rfl)) (by omega) (by omega)
    hkeys.1
  have hle := hra.length_le
  have hlt := h2.length_lt
  have hbc := h3.length_le
  have hskip := length_skipWhitespace_le c
  simp only [List.length_cons] at hbc
  rw [parseItems_more hv (skipWhitespace_eq h3 rfl) h4.skip.2,
    ih' fuel (arr ++ [v]) d (n + v.nodes) _ (skipWhitespace_idem c) (by omega) (by omega) (by omega)
      hkeys.2]
  simp [Nat.add_assoc]

/-- The key, the colon and the value of one member. -/
theorem member_reads {s a b c d' e k : Bytes} {v : JSONValue D} (h1 : Ws s (0x22 :: a))
    (h2 : StringBody a k b) (h3 : Ws b (0x3A :: c)) (h4 : Ws c d') (h5 : ValueText Number d' v e)
    (he : Delimited e) (ih : ValueReads d' v e) (fuel d n : Nat)
    {obj ms : List (Bytes × JSONValue D)} {r : Bytes} (hr : skipWhitespace r = skipWhitespace s)
    (hf : 4 * r.length < fuel + 1) (hd : d + v.depth ≤ 64) (hn : n + v.nodes ≤ 1000000)
    (hkeys : v.KeysWithin 4096) (hnodup : ((obj ++ (k, v) :: ms).map Prod.fst).Nodup)
    (hlength : (obj ++ (k, v) :: ms).length ≤ 4096) :
    MemberAt fuel obj ⟨r, d, n⟩ k v ⟨e, d, n + v.nodes⟩ ∧ e.length + 2 ≤ r.length := by
  have hrs : skipWhitespace r = 0x22 :: a := by rw [hr, skipWhitespace_eq h1 rfl]
  have hle1 := length_skipWhitespace_le r
  rw [hrs, List.length_cons] at hle1
  have hle2 := h2.length_lt
  have hle3 := h3.length_le
  rw [List.length_cons] at hle3
  have hle4 := length_skipWhitespace_le c
  have hle5 := h4.length_le
  have hle6 := h5.length_lt
  have hc : Ws (skipWhitespace c) d' := by
    rw [h5.skip h4]
    exact .nil
  have hv := ih fuel d n (skipWhitespace c) hc (by omega) he hd hn hkeys
  refine ⟨⟨⟨b, c, ?_, skipWhitespace_eq h3 rfl, hv⟩, ?_, ?_⟩, by omega⟩
  · rw [hrs]
    exact parseString_of_stringBody h2
  · simp only [List.length_append, List.length_cons] at hlength
    omega
  · rw [List.map_append, List.map_cons, List.nodup_append] at hnodup
    exact fun hk => hnodup.2.2 k hk k List.mem_cons_self rfl

theorem lastMember_reads {s a b c d' e t k : Bytes} {v : JSONValue D} (h1 : Ws s (0x22 :: a))
    (h2 : StringBody a k b) (h3 : Ws b (0x3A :: c)) (h4 : Ws c d') (h5 : ValueText Number d' v e)
    (h6 : Ws e (0x7D :: t)) (ih : ValueReads d' v e) : MembersReads s [(k, v)] t := by
  intro fuel obj d n r hr hf hd hn hkeys hnodup hlength
  simp only [depthMembers, nodesMembers, KeysWithinMembers] at hd hn hkeys ⊢
  obtain ⟨fuel, rfl⟩ := Nat.exists_eq_add_one_of_ne_zero (by omega : fuel ≠ 0)
  obtain ⟨hm, -⟩ := member_reads h1 h2 h3 h4 h5 (delimited_of_ws h6 (.inr (.inr rfl))) ih
    fuel d n hr hf (by omega) (by omega) hkeys.1 hnodup hlength
  rw [parseMembers_last hm (skipWhitespace_eq h6 rfl), Nat.add_zero]

theorem moreMembers_reads {s a b c d' e f t k : Bytes} {v : JSONValue D}
    {ms : List (Bytes × JSONValue D)} (h1 : Ws s (0x22 :: a)) (h2 : StringBody a k b)
    (h3 : Ws b (0x3A :: c)) (h4 : Ws c d') (h5 : ValueText Number d' v e) (h6 : Ws e (0x2C :: f))
    (h7 : MembersText Number f ms t) (ih : ValueReads d' v e) (ih' : MembersReads f ms t) :
    MembersReads s ((k, v) :: ms) t := by
  intro fuel obj d n r hr hf hd hn hkeys hnodup hlength
  simp only [depthMembers, nodesMembers, KeysWithinMembers] at hd hn hkeys ⊢
  obtain ⟨fuel, rfl⟩ := Nat.exists_eq_add_one_of_ne_zero (by omega : fuel ≠ 0)
  obtain ⟨hm, hle⟩ := member_reads h1 h2 h3 h4 h5 (delimited_of_ws h6 (.inl rfl)) ih
    fuel d n hr hf (by omega) (by omega) hkeys.1 hnodup hlength
  have hef := h6.length_le
  have hskip := length_skipWhitespace_le f
  rw [List.length_cons] at hef
  rw [parseMembers_more hm (skipWhitespace_eq h6 rfl) h7.skip.2,
    ih' fuel (obj ++ [(k, v)]) d (n + v.nodes) _ (skipWhitespace_idem f) (by omega) (by omega)
      (by omega) hkeys.2 (by simpa using hnodup) (by simpa using hlength)]
  simp [Nat.add_assoc]

/-- Every derivation of a value drives ParseValue over its text. -/
theorem valueReads {s t : Bytes} {v : JSONValue D} (h : ValueText Number s v t) : ValueReads s v t := by
  refine @ValueText.rec D Number (fun s v t _ => ValueReads s v t) (fun s vs t _ => ItemsReads s vs t)
    (fun s ms t _ => MembersReads s ms t)
    ?null ?true ?false ?number ?string ?emptyArray ?array ?emptyObject ?object ?lastItem ?moreItems
    ?lastMember ?moreMembers s v t h
  case null =>
      refine valueReads_leaf .null (by simp [nodes]) fun fuel d n _ => ?_
      have hs (t : Bytes) : parseSwitch (D := D) (fuel + 1) ⟨lit "null" ++ t, d, n⟩ =
        keyword (lit "null") .null ⟨lit "null" ++ t, d, n⟩ := rfl
      rw [hs, keyword_reads]
  case true =>
      refine valueReads_leaf .boolTrue (by simp [nodes]) fun fuel d n _ => ?_
      have hs (t : Bytes) : parseSwitch (D := D) (fuel + 1) ⟨lit "true" ++ t, d, n⟩ =
        keyword (lit "true") (.bool true) ⟨lit "true" ++ t, d, n⟩ := rfl
      rw [hs, keyword_reads]
  case false =>
      refine valueReads_leaf .boolFalse (by simp [nodes]) fun fuel d n _ => ?_
      have hs (t : Bytes) : parseSwitch (D := D) (fuel + 1) ⟨lit "false" ++ t, d, n⟩ =
        keyword (lit "false") (.bool false) ⟨lit "false" ++ t, d, n⟩ := rfl
      rw [hs, keyword_reads]
  case number => exact number_reads
  case string => exact string_reads
  case emptyArray => exact emptyArray_reads
  case array => exact array_reads
  case emptyObject => exact emptyObject_reads
  case object => exact object_reads
  case lastItem => exact lastItem_reads
  case moreItems => exact moreItems_reads
  case lastMember => exact lastMember_reads
  case moreMembers => exact moreMembers_reads

theorem parse_complete {x : Bytes} {v : JSONValue D} (hlength : x.length ≤ 8 * 1024 * 1024)
    (h : JsonText Number x v) (hd : v.depth ≤ 64) (hn : v.nodes ≤ 1000000) (hkeys : v.KeysWithin 4096) :
    parse x = some v := by
  obtain ⟨a, b, hs, htext, he⟩ := h
  have hv := valueReads htext (4 * x.length) 0 0 x hs (Nat.le_refl _) (delimited_of_end he)
    (by omega) (by omega) hkeys
  unfold parse
  rw [if_neg (by omega), hv]
  have hend : skipWhitespace b = [] := skipWhitespace_of_ws he
  simp only [hend, if_true]

/-- Parse accepts exactly the JSON texts within its limits, and returns the tree that the
text denotes. -/
theorem parse_iff (x : Bytes) (v : JSONValue D) :
    parse x = some v ↔ x.length ≤ 8 * 1024 * 1024 ∧ JsonText Number x v ∧ v.depth ≤ 64 ∧
      v.nodes ≤ 1000000 ∧ v.KeysWithin 4096 :=
  ⟨parse_sound, fun ⟨hlength, htext, hd, hn, hkeys⟩ => parse_complete hlength htext hd hn hkeys⟩

end WebHtop.Common
