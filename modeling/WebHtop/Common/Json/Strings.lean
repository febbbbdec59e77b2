import WebHtop.Common.Json.Grammar
import WebHtop.Common.Json.Parser

/-!
# Whitespace and strings as the parser reads them

Both directions of each: what the scanner takes is a token of the grammar, and it takes
every token of the grammar. The two passes over a string meet in `Segment`, the raw
segments the first one lets through.
-/

namespace WebHtop.Common

open WebHtop.Lib WebHtop.Lib.Json WebHtop.Lib.Decimal

/-! ## Whitespace -/

theorem skipWhitespace_cons (c : UInt8) (cs : Bytes) :
    skipWhitespace (c :: cs) = if isWhitespace c then skipWhitespace cs else c :: cs := by
  have h : (c = ch ' ' ∨ c = ch '\t' ∨ c = ch '\n' ∨ c = ch '\r') ↔ isWhitespace c = true := by
    simp only [isWhitespace, Bool.or_eq_true, decide_eq_true_eq, or_assoc]
    exact Iff.rfl
  simp only [skipWhitespace, h]

theorem ws_skipWhitespace (s : Bytes) : Ws s (skipWhitespace s) := by
  induction s with
  | nil => exact .nil
  | cons c s ih =>
      rw [skipWhitespace_cons]
      split
      · rename_i hc
        exact .cons hc ih
      · exact .nil

theorem skipWhitespace_of_ws {s t : Bytes} (h : Ws s t) : skipWhitespace s = skipWhitespace t := by
  induction h with
  | nil => rfl
  | cons hc _ ih => rw [skipWhitespace_cons, if_pos hc, ih]

theorem skipWhitespace_of_not {c : UInt8} {cs : Bytes} (h : isWhitespace c = false) :
    skipWhitespace (c :: cs) = c :: cs := by
  rw [skipWhitespace_cons, if_neg (by simp [h])]

theorem skipWhitespace_idem (s : Bytes) : skipWhitespace (skipWhitespace s) = skipWhitespace s :=
  (skipWhitespace_of_ws (ws_skipWhitespace s)).symm

theorem length_skipWhitespace_le (s : Bytes) : (skipWhitespace s).length ≤ s.length :=
  (ws_skipWhitespace s).length_le

/-- Whitespace that leads to a byte other than whitespace is what the scanner skips. -/
theorem skipWhitespace_eq {s : Bytes} {c : UInt8} {t : Bytes} (h : Ws s (c :: t))
    (hc : isWhitespace c = false) : skipWhitespace s = c :: t := by
  rw [skipWhitespace_of_ws h, skipWhitespace_of_not hc]

/-! ## Hexadecimal digits -/

theorem hexDigit_eq (c : UInt8) : hexDigit c = hexValue c := by
  have h (k : UInt8) : (c ≥ k ↔ k.toNat ≤ c.toNat) ∧ (c ≤ k ↔ c.toNat ≤ k.toNat) :=
    ⟨UInt8.le_iff_toNat_le, UInt8.le_iff_toNat_le⟩
  simp only [hexDigit, hexValue, h]
  change (if 48 ≤ c.toNat ∧ c.toNat ≤ 57 then _ else if 97 ≤ c.toNat ∧ c.toNat ≤ 102 then _ else
    if 65 ≤ c.toNat ∧ c.toNat ≤ 70 then _ else _) = _
  split_ifs
  · rfl
  · rw [show c.toNat - 97 + 10 = c.toNat - 87 by omega]
  · rw [show c.toNat - 65 + 10 = c.toNat - 55 by omega]
  · rfl

theorem hexDigit_isSome {h : Bytes} {n : Nat} (hh : Hex4 h n) {d : UInt8} (hd : d ∈ h) :
    (hexDigit d).isSome = true := by
  rw [hexDigit_eq]
  exact hh.digits d hd

/-- One more digit in the source's words. -/
theorem shift_or {n d : Nat} (h : d < 16) : n <<< 4 ||| d = n * 16 + d := by
  rw [Nat.shiftLeft_eq, Nat.mul_comm, marked 4 n h]
  omega

theorem parseHex4_hex4 {h : Bytes} {n : Nat} (hh : Hex4 h n) (rest : Bytes) :
    parseHex4 (h ++ rest) = some n := by
  cases hh with
  | mk ha hb hc hd =>
      simp only [parseHex4, List.cons_append, List.nil_append, List.length_cons]
      rw [if_neg (by omega)]
      simp [List.foldlM_cons, hexDigit_eq, ha, hb, hc, hd, shift_or (hexValue_lt hb),
        shift_or (hexValue_lt hc), shift_or (hexValue_lt hd)]

theorem hex4_of_parseHex4 {raw : Bytes} {n : Nat} (h : parseHex4 raw = some n) :
    ∃ digits, raw = digits ++ raw.drop 4 ∧ Hex4 digits n := by
  unfold parseHex4 at h
  split at h
  · cases h
  · rename_i hlength
    match raw, (show 4 ≤ raw.length by omega) with
    | a :: b :: c :: d :: rest, _ =>
        simp only [List.take_succ_cons, List.take_zero, List.foldlM_cons, List.foldlM_nil,
          hexDigit_eq, Option.bind_eq_bind, Option.bind_eq_some_iff, Option.map_eq_some_iff] at h
        obtain ⟨-, ⟨i, hi, rfl⟩, -, ⟨j, hj, rfl⟩, -, ⟨k, hk, rfl⟩, -, ⟨l, hl, rfl⟩, hn⟩ := h
        refine ⟨[a, b, c, d], rfl, ?_⟩
        rw [shift_or (hexValue_lt hl), shift_or (hexValue_lt hk), shift_or (hexValue_lt hj),
          shift_or (hexValue_lt hi)] at hn
        obtain rfl := Option.some.inj hn
        simpa using Hex4.mk hi hj hk hl

theorem escapeByte_eq (esc : UInt8) : escapeByte esc = simpleEscape esc := rfl

theorem simpleEscape_u : simpleEscape 0x75 = none := rfl

/-! ## The first pass over a string -/

/-- The raw segments the first pass accepts, and whether they have escapes. -/
inductive Segment : Bytes → Bool → Prop
  | nil : Segment [] false
  | char (c : Char) {raw : Bytes} {e : Bool} : Unescaped c → Segment raw e →
      Segment (Utf8.encode c ++ raw) e
  | escape {esc : UInt8} {raw : Bytes} {e : Bool} : esc ≠ 0x75 → Segment raw e →
      Segment (0x5C :: esc :: raw) true
  | unicode {h raw : Bytes} {n : Nat} {e : Bool} : Hex4 h n → Segment raw e →
      Segment (0x5C :: 0x75 :: (h ++ raw)) true

theorem scanString_char {c : Char} (h : Unescaped c) (fuel : Nat) (s : Bytes) :
    scanString (fuel + 1) (Utf8.encode c ++ s) =
      (scanString fuel s).map fun r => (r.1 + (Utf8.encode c).length, r.2) := by
  obtain ⟨b, bs, hb⟩ := List.exists_cons_of_ne_nil (Utf8.encode_ne_nil c)
  have hmem : b ∈ Utf8.encode c := hb ▸ List.mem_cons_self
  obtain ⟨h1, h2, h3⟩ := h.bytes hmem
  rw [hb, List.cons_append]
  simp only [scanString, ch, Char.reduceToNat, UInt8.reduceOfNat]
  rw [if_neg h1, if_neg h2, if_neg (by rw [UInt8.lt_iff_toNat_lt]; exact Nat.not_lt.mpr h3)]
  by_cases hlt : b.toNat < 128
  · have hs := (Utf8.sequence_encode c).ascii hmem hlt
    rw [hb] at hs
    obtain rfl : bs = [] := by simpa using hs
    rw [if_neg (by rw [ge_iff_le, UInt8.le_iff_toNat_le]; exact Nat.not_le.mpr hlt)]
    rfl
  · rw [if_pos (by rw [ge_iff_le, UInt8.le_iff_toNat_le]; exact Nat.not_lt.mp hlt),
      ← List.cons_append, ← hb, utf8Length_encode, List.drop_left]
    rw [if_neg (by rw [hb]; simp)]

theorem scanString_unicode {h : Bytes} {n : Nat} (hh : Hex4 h n) (fuel : Nat) (s : Bytes) :
    scanString (fuel + 1) (0x5C :: 0x75 :: (h ++ s)) =
      (scanString fuel s).map fun r => (r.1 + 6, true) := by
  have hall : ((h.take 4).all fun d => (hexDigit d).isSome) = true :=
    List.all_eq_true.mpr fun d hd => hexDigit_isSome hh (List.mem_of_mem_take hd)
  cases hh with
  | mk _ _ _ _ =>
      simp only [scanString, ch, Char.reduceToNat, UInt8.reduceOfNat, List.cons_append,
        List.nil_append, List.length_cons, List.take_succ_cons, List.take_zero, List.drop_succ_cons,
        List.drop_zero] at hall ⊢
      rw [if_neg (by decide), if_pos trivial, if_pos trivial, if_neg (by omega), if_pos hall]

theorem hex4_of_all {cs : Bytes} (hlength : ¬ cs.length < 4)
    (h : ((cs.take 4).all fun d => (hexDigit d).isSome) = true) : ∃ n, Hex4 (cs.take 4) n := by
  match cs, (show 4 ≤ cs.length by omega) with
  | a :: b :: c :: d :: rest, _ =>
      simp only [List.take_succ_cons, List.take_zero, List.all_cons, List.all_nil, Bool.and_true,
        Bool.and_eq_true, hexDigit_eq, Option.isSome_iff_exists] at h
      obtain ⟨⟨i, hi⟩, ⟨j, hj⟩, ⟨k, hk⟩, ⟨l, hl⟩⟩ := h
      exact ⟨_, .mk hi hj hk hl⟩

/-- What the first pass runs over is a segment. -/
theorem segment_of_scanString {fuel : Nat} {s : Bytes} {n : Nat} {e : Bool}
    (h : scanString fuel s = some (n, e)) :
    ∃ raw after, s = raw ++ after ∧ raw.length = n ∧ Segment raw e := by
  fun_induction scanString fuel s generalizing n e
  case case2 =>
      obtain ⟨rfl, rfl⟩ := Prod.mk.inj (Option.some.inj h)
      exact ⟨[], _, rfl, rfl, .nil⟩
  case case3 =>
      obtain ⟨rfl, rfl⟩ := Prod.mk.inj (Option.some.inj h)
      exact ⟨[], _, rfl, rfl, .nil⟩
  case case6 fuel cs hlength hall _ ih =>
      obtain ⟨⟨m, e'⟩, hscan, hr⟩ := Option.map_eq_some_iff.mp h
      obtain ⟨rfl, rfl⟩ := Prod.mk.inj hr
      obtain ⟨raw, after, hs, rfl, hraw⟩ := ih hscan
      obtain ⟨k, hk⟩ := hex4_of_all hlength hall
      refine ⟨_, after, ?_, ?_, .unicode hk hraw⟩
      · simp only [List.cons_append, List.append_assoc, ← hs, List.take_append_drop]
        rfl
      · simp only [List.length_cons, List.length_append, hk.length]
        omega
  case case8 fuel esc cs hesc _ ih =>
      obtain ⟨⟨m, e'⟩, hscan, hr⟩ := Option.map_eq_some_iff.mp h
      obtain ⟨rfl, rfl⟩ := Prod.mk.inj hr
      obtain ⟨raw, after, rfl, rfl, hraw⟩ := ih hscan
      exact ⟨0x5C :: esc :: raw, after, rfl, rfl, .escape hesc hraw⟩
  case case11 fuel c cs h1 h2 h3 _ length hpos ih =>
      obtain ⟨⟨m, e'⟩, hscan, hr⟩ := Option.map_eq_some_iff.mp h
      obtain ⟨rfl, rfl⟩ := Prod.mk.inj hr
      obtain ⟨raw, after, hs, rfl, hraw⟩ := ih hscan
      obtain ⟨x, -, hx⟩ := utf8Length_pos hpos
      obtain ⟨b, bs, hb⟩ := List.exists_cons_of_ne_nil (Utf8.encode_ne_nil x)
      obtain ⟨rfl, -⟩ : c = b ∧ _ := by
        rw [hb, List.cons_append] at hx
        exact List.cons.inj hx
      have hun := unescaped_of_byte hb h1 h2 (by rwa [UInt8.lt_iff_toNat_lt, Nat.not_lt] at h3)
      refine ⟨Utf8.encode x ++ raw, after, ?_, ?_, .char x hun hraw⟩
      · rw [List.append_assoc, ← hs]
        exact hx
      · have hlength := utf8Length_encode x ((c :: cs).drop length)
        rw [← hx] at hlength
        rw [List.length_append, Nat.add_comm, ← hlength]
  case case12 fuel c cs h1 h2 h3 h4 ih =>
      obtain ⟨⟨m, e'⟩, hscan, hr⟩ := Option.map_eq_some_iff.mp h
      obtain ⟨rfl, rfl⟩ := Prod.mk.inj hr
      obtain ⟨raw, after, rfl, rfl, hraw⟩ := ih hscan
      rw [ge_iff_le, UInt8.le_iff_toNat_le, Nat.not_le] at h4
      obtain ⟨x, hx⟩ := (Utf8.Sequence.one h4).scalar
      have hun := unescaped_of_byte hx h1 h2 (by rwa [UInt8.lt_iff_toNat_lt, Nat.not_lt] at h3)
      have hsegment := Segment.char x hun hraw
      rw [hx] at hsegment
      exact ⟨c :: raw, after, rfl, rfl, hsegment⟩
  all_goals cases h

theorem scanString_segment {raw : Bytes} {e : Bool} (h : Segment raw e) (after : Bytes) :
    ∀ fuel, raw.length < fuel →
      scanString fuel (raw ++ 0x22 :: after) = some (raw.length, e) := by
  induction h with
  | nil =>
      intro fuel hf
      obtain ⟨fuel, rfl⟩ := Nat.exists_eq_add_one_of_ne_zero (by omega : fuel ≠ 0)
      rfl
  | char c hc _ ih =>
      intro fuel hf
      have hpos := List.length_pos_iff.mpr (Utf8.encode_ne_nil c)
      rw [List.length_append] at hf
      obtain ⟨fuel, rfl⟩ := Nat.exists_eq_add_one_of_ne_zero (by omega : fuel ≠ 0)
      rw [List.append_assoc, scanString_char hc, ih fuel (by omega), List.length_append,
        Nat.add_comm]
      rfl
  | escape hesc _ ih =>
      intro fuel hf
      simp only [List.length_cons] at hf
      obtain ⟨fuel, rfl⟩ := Nat.exists_eq_add_one_of_ne_zero (by omega : fuel ≠ 0)
      simp only [List.cons_append, scanString, ch, Char.reduceToNat, UInt8.reduceOfNat,
        if_neg hesc, ih fuel (by omega)]
      rfl
  | unicode hh _ ih =>
      intro fuel hf
      simp only [List.length_cons, List.length_append, hh.length] at hf
      obtain ⟨fuel, rfl⟩ := Nat.exists_eq_add_one_of_ne_zero (by omega : fuel ≠ 0)
      rw [List.cons_append, List.cons_append, List.append_assoc, scanString_unicode hh,
        ih fuel (by omega)]
      simp only [Option.map_some, List.length_cons, List.length_append, hh.length]
      congr 2
      omega

/-! ## The second pass -/

theorem prepend_text {b : Bytes} {r : Decoded} {d : Bytes} (h : r.prepend b = .text d) :
    ∃ d', r = .text d' ∧ d = b ++ d' := by
  cases r with
  | text d' =>
      obtain rfl := Decoded.text.inj h
      exact ⟨d', rfl, rfl⟩
  | malformed => cases h
  | outside => cases h

theorem decodeString_plain (pre : Bytes) (h : ∀ b ∈ pre, b ≠ 0x5C) (fuel : Nat) (raw : Bytes) :
    decodeString (fuel + pre.length) (pre ++ raw) = (decodeString fuel raw).prepend pre := by
  induction pre with
  | nil =>
      simp only [List.length_nil, Nat.add_zero, List.nil_append]
      cases decodeString fuel raw <;> rfl
  | cons b pre ih =>
      rw [List.length_cons, ← Nat.add_assoc, List.cons_append]
      have hb : b ≠ ch '\\' := h b List.mem_cons_self
      simp only [decodeString]
      rw [if_pos hb, ih fun c hc => h c (List.mem_cons_of_mem b hc)]
      cases decodeString fuel raw <;> rfl

theorem decodeString_escape {esc b : UInt8} (h : simpleEscape esc = some b) (fuel : Nat)
    (raw : Bytes) :
    decodeString (fuel + 1) (0x5C :: esc :: raw) = (decodeString fuel raw).prepend [b] := by
  simp only [decodeString, ch, Char.reduceToNat, UInt8.reduceOfNat, escapeByte_eq, h, ne_eq,
    not_true_eq_false, if_false]

theorem decodeString_unknown {esc : UInt8} (hu : esc ≠ 0x75) (h : simpleEscape esc = none)
    (fuel : Nat) (raw : Bytes) : decodeString (fuel + 1) (0x5C :: esc :: raw) = .malformed := by
  have hc : ¬ ((0x5C : UInt8) ≠ ch '\\') := fun hne => hne rfl
  simp only [decodeString]
  rw [if_neg hc, escapeByte_eq, h]
  exact if_neg hu

theorem decodeString_unicode (fuel : Nat) (raw : Bytes) :
    decodeString (fuel + 1) (0x5C :: 0x75 :: raw) =
      match unicodeEscape raw with
      | none => .malformed
      | some (b, raw) => (decodeString fuel raw).prepend b := by
  have hc : ¬ ((0x5C : UInt8) ≠ ch '\\') := fun hne => hne rfl
  have hu : (0x75 : UInt8) = ch 'u' := rfl
  simp only [decodeString]
  rw [if_neg hc, escapeByte_eq, simpleEscape_u]
  simp only
  refine (if_pos hu).trans ?_
  cases unicodeEscape raw <;> rfl

theorem unicodeEscape_char (c : Char) {h : Bytes} (hh : Hex4 h c.val.toNat) (raw : Bytes) :
    unicodeEscape (h ++ raw) = some (Utf8.encode c, raw) := by
  obtain ⟨-, hs⟩ := Utf8.scalar_lt c
  have hdrop : (h ++ raw).drop 4 = raw := by rw [← hh.length, List.drop_left]
  simp only [unicodeEscape, parseHex4_hex4 hh, hdrop]
  rw [if_neg (by omega), if_neg (by omega), encodeUtf8_scalar]
  rfl

theorem unicodeEscape_surrogates (c : Char) {h h' : Bytes} {high low : Nat} (hh : Hex4 h high)
    (hh' : Hex4 h' low) (h1 : 0xD800 ≤ high) (h2 : high ≤ 0xDBFF) (h3 : 0xDC00 ≤ low)
    (h4 : low ≤ 0xDFFF) (hc : c.val.toNat = 0x10000 + (high - 0xD800) * 0x400 + (low - 0xDC00))
    (raw : Bytes) :
    unicodeEscape (h ++ 0x5C :: 0x75 :: (h' ++ raw)) = some (Utf8.encode c, raw) := by
  have hdrop (r : Bytes) : (h ++ r).drop 4 = r := by rw [← hh.length, List.drop_left]
  have hdrop' : (h' ++ raw).drop 4 = raw := by rw [← hh'.length, List.drop_left]
  simp only [unicodeEscape, parseHex4_hex4 hh, hdrop]
  rw [if_pos ⟨h1, h2⟩, if_pos ⟨by simp [hh'.length], rfl⟩]
  simp only [List.drop_succ_cons, List.drop_zero, parseHex4_hex4 hh', hdrop']
  rw [if_neg (by omega), Nat.shiftLeft_eq, ← hc, encodeUtf8_scalar]
  rfl

/-- An escape that decodes takes one code unit or a surrogate pair off the segment. -/
theorem unicodeEscape_cases {raw b rest : Bytes} (h : unicodeEscape raw = some (b, rest)) :
    (∃ c digits, Hex4 digits c.val.toNat ∧ raw = digits ++ rest ∧ b = Utf8.encode c) ∨
    ∃ c digits digits' high low, Hex4 digits high ∧ Hex4 digits' low ∧ 0xD800 ≤ high ∧
      high ≤ 0xDBFF ∧ 0xDC00 ≤ low ∧ low ≤ 0xDFFF ∧
      c.val.toNat = 0x10000 + (high - 0xD800) * 0x400 + (low - 0xDC00) ∧
      raw = digits ++ 0x5C :: 0x75 :: (digits' ++ rest) ∧ b = Utf8.encode c := by
  unfold unicodeEscape at h
  split at h
  · cases h
  rename_i cp hcp
  obtain ⟨digits, hraw, hd⟩ := hex4_of_parseHex4 hcp
  have hlt := hd.lt
  dsimp only at h
  split at h
  · rename_i hhigh
    split at h
    · rename_i hmark
      split at h
      · cases h
      rename_i low hlow
      obtain ⟨digits', hrest, hd'⟩ := hex4_of_parseHex4 hlow
      split at h
      · cases h
      rename_i hrange
      have hvalid : Nat.isValidChar (0x10000 + (cp - 0xD800) * 0x400 + (low - 0xDC00)) := by
        unfold Nat.isValidChar
        omega
      obtain ⟨c, hc⟩ : ∃ c : Char, c.val.toNat = 0x10000 + (cp - 0xD800) * 0x400 + (low - 0xDC00) :=
        ⟨Utf8.scalar _ hvalid, rfl⟩
      rw [Nat.shiftLeft_eq, ← hc, encodeUtf8_scalar] at h
      obtain ⟨rfl, rfl⟩ := Prod.mk.inj (Option.some.inj h)
      refine .inr ⟨c, digits, digits', cp, low, hd, hd', hhigh.1, hhigh.2, by omega, by omega, hc,
        ?_, rfl⟩
      have hpair : raw.drop 4 = 0x5C :: 0x75 :: (raw.drop 4).drop 2 := by
        have hsplit := List.take_append_drop 2 (raw.drop 4)
        rw [hmark.2] at hsplit
        exact hsplit.symm
      rw [List.drop_drop (i := 4) (j := 2)] at hrest
      calc raw = digits ++ raw.drop 4 := hraw
        _ = digits ++ 0x5C :: 0x75 :: (raw.drop 4).drop 2 := by rw [← hpair]
        _ = _ := by rw [hrest]
    · cases h
  · split at h
    · cases h
    · obtain ⟨c, hc⟩ : ∃ c : Char, c.val.toNat = cp :=
        ⟨Utf8.scalar cp (by unfold Nat.isValidChar; omega), rfl⟩
      rw [← hc, encodeUtf8_scalar] at h
      obtain ⟨rfl, rfl⟩ := Prod.mk.inj (Option.some.inj h)
      exact .inl ⟨c, digits, hc ▸ hd, hraw, rfl⟩

theorem Segment.of_unicode {h raw : Bytes} {n : Nat} {e : Bool} (hh : Hex4 h n)
    (hs : Segment (0x5C :: 0x75 :: (h ++ raw)) e) : ∃ e', Segment raw e' := by
  generalize hx : 0x5C :: 0x75 :: (h ++ raw) = x at hs
  cases hs with
  | nil => cases hx
  | @char c raw' _ hc _ =>
      obtain ⟨b, bs, hb⟩ := List.exists_cons_of_ne_nil (Utf8.encode_ne_nil c)
      obtain ⟨-, hne, -⟩ := hc.bytes (hb ▸ List.mem_cons_self)
      rw [hb, List.cons_append] at hx
      exact absurd (List.cons.inj hx).1.symm hne
  | escape hesc _ => exact absurd (List.cons.inj (List.cons.inj hx).2).1.symm hesc
  | @unicode h' raw' _ e' hh' hraw =>
      have heq := (List.cons.inj (List.cons.inj hx).2).2
      obtain ⟨-, rfl⟩ := List.append_inj heq (by rw [hh.length, hh'.length])
      exact ⟨e', hraw⟩

/-- Both passes together accept only strings of the grammar. -/
theorem stringBody_of_decodeString {raw : Bytes} {e : Bool} (hs : Segment raw e) {fuel : Nat}
    (hf : raw.length < fuel) {d : Bytes} (h : decodeString fuel raw = .text d) (t : Bytes) :
    StringBody (raw ++ 0x22 :: t) d t := by
  induction hn : raw.length using Nat.strong_induction_on generalizing raw e fuel d with
  | _ n ih =>
      subst hn
      cases hs with
      | nil =>
          obtain ⟨fuel, rfl⟩ := Nat.exists_eq_add_one_of_ne_zero (by omega : fuel ≠ 0)
          obtain rfl := Decoded.text.inj h
          exact .close
      | @char c raw _ hc hraw =>
          have hpos := List.length_pos_iff.mpr (Utf8.encode_ne_nil c)
          rw [List.length_append] at hf ih
          obtain ⟨k, rfl⟩ := Nat.exists_eq_add_of_le (show (Utf8.encode c).length ≤ fuel by omega)
          rw [Nat.add_comm, decodeString_plain _ fun b hb => (hc.bytes hb).2.1] at h
          obtain ⟨d', hd', rfl⟩ := prepend_text h
          rw [List.append_assoc]
          exact .char c hc (ih _ (by omega) hraw (by omega) hd' rfl)
      | @escape esc raw _ hesc hraw =>
          simp only [List.length_cons] at hf ih
          obtain ⟨fuel, rfl⟩ := Nat.exists_eq_add_one_of_ne_zero (by omega : fuel ≠ 0)
          cases hb : simpleEscape esc with
          | none =>
              rw [decodeString_unknown hesc hb] at h
              cases h
          | some b =>
              rw [decodeString_escape hb] at h
              obtain ⟨d', hd', rfl⟩ := prepend_text h
              exact .escape hb (ih _ (by omega) hraw (by omega) hd' rfl)
      | @unicode digits raw _ _ hdigits hraw =>
          simp only [List.length_cons, List.length_append, hdigits.length] at hf ih
          obtain ⟨fuel, rfl⟩ := Nat.exists_eq_add_one_of_ne_zero (by omega : fuel ≠ 0)
          rw [decodeString_unicode] at h
          cases hu : unicodeEscape (digits ++ raw) with
          | none => rw [hu] at h; cases h
          | some r =>
              obtain ⟨b, rest⟩ := r
              rw [hu] at h
              obtain ⟨d', hd', rfl⟩ := prepend_text h
              rcases unicodeEscape_cases hu with ⟨c, g, hg, heq, rfl⟩ |
                ⟨c, g, g', high, low, hg, hg', h1, h2, h3, h4, hc, heq, rfl⟩
              · obtain ⟨rfl, rfl⟩ := List.append_inj heq (by rw [hdigits.length, hg.length])
                have := ih _ (by omega) hraw (by omega) hd' rfl
                simpa using StringBody.unicode c hg this
              · obtain ⟨rfl, rfl⟩ := List.append_inj heq (by rw [hdigits.length, hg.length])
                obtain ⟨e', hrest⟩ := hraw.of_unicode hg'
                simp only [List.length_cons, List.length_append, hg'.length] at hf ih
                have := ih _ (by omega) hrest (by omega) hd' rfl
                simpa using StringBody.surrogates c hg hg' h1 h2 h3 h4 hc this

theorem stringBody_of_plain {raw : Bytes} {e : Bool} (hs : Segment raw e) (he : e = false)
    (t : Bytes) : StringBody (raw ++ 0x22 :: t) raw t := by
  induction hs with
  | nil => exact .close
  | char c hc _ ih =>
      rw [List.append_assoc]
      exact .char c hc (ih he)
  | escape _ _ _ => cases he
  | unicode _ _ _ => cases he

/-- Every string of the grammar is a segment that the second pass decodes. -/
theorem segment_of_stringBody {s d t : Bytes} (h : StringBody s d t) :
    ∃ raw e, s = raw ++ 0x22 :: t ∧ Segment raw e ∧ (e = false → d = raw) ∧
      ∀ fuel, raw.length < fuel → decodeString fuel raw = .text d := by
  induction h with
  | close =>
      refine ⟨[], false, rfl, .nil, fun _ => rfl, fun fuel hf => ?_⟩
      obtain ⟨fuel, rfl⟩ := Nat.exists_eq_add_one_of_ne_zero (by omega : fuel ≠ 0)
      rfl
  | char c hc _ ih =>
      obtain ⟨raw, e, rfl, hraw, he, hd⟩ := ih
      refine ⟨Utf8.encode c ++ raw, e, by simp, .char c hc hraw, fun h => by rw [he h],
        fun fuel hf => ?_⟩
      rw [List.length_append] at hf
      obtain ⟨k, rfl⟩ := Nat.exists_eq_add_of_le (show (Utf8.encode c).length ≤ fuel by omega)
      rw [Nat.add_comm, decodeString_plain _ fun b hb => (hc.bytes hb).2.1, hd k (by omega)]
      rfl
  | @escape esc b _ _ _ hesc _ ih =>
      obtain ⟨raw, e, rfl, hraw, -, hd⟩ := ih
      have hu : esc ≠ 0x75 := by
        rintro rfl
        cases hesc
      refine ⟨0x5C :: esc :: raw, true, rfl, .escape hu hraw, nofun, fun fuel hf => ?_⟩
      simp only [List.length_cons] at hf
      obtain ⟨fuel, rfl⟩ := Nat.exists_eq_add_one_of_ne_zero (by omega : fuel ≠ 0)
      rw [decodeString_escape hesc, hd fuel (by omega)]
      rfl
  | unicode c hh _ ih =>
      obtain ⟨raw, e, rfl, hraw, -, hd⟩ := ih
      refine ⟨_, true, by simp, .unicode hh hraw, nofun, fun fuel hf => ?_⟩
      simp only [List.length_cons, List.length_append] at hf
      obtain ⟨fuel, rfl⟩ := Nat.exists_eq_add_one_of_ne_zero (by omega : fuel ≠ 0)
      rw [decodeString_unicode, unicodeEscape_char c hh]
      simp only [hd fuel (by omega)]
      rfl
  | surrogates c hh hh' h1 h2 h3 h4 hc _ ih =>
      obtain ⟨raw, e, rfl, hraw, -, hd⟩ := ih
      refine ⟨_, true, by simp, .unicode hh (.unicode hh' hraw), nofun, fun fuel hf => ?_⟩
      simp only [List.length_cons, List.length_append] at hf
      obtain ⟨fuel, rfl⟩ := Nat.exists_eq_add_one_of_ne_zero (by omega : fuel ≠ 0)
      rw [decodeString_unicode, unicodeEscape_surrogates c hh hh' h1 h2 h3 h4 hc]
      simp only [hd fuel (by omega)]
      rfl

/-! ## Both passes -/

theorem parseString_quote (body : Bytes) :
    parseString (0x22 :: body) =
      match scanString (body.length + 1) body with
      | none => none
      | some (n, needsDecode) =>
        match body.drop n with
        | [] => none
        | q :: after =>
          if q = ch '"' then
            if needsDecode then
              match decodeString ((body.take n).length + 1) (body.take n) with
              | .text d => some (d, after)
              | .malformed => none
              | .outside => none
            else some (body.take n, after)
          else none := rfl

theorem stringBody_of_parseString {body d t : Bytes} (h : parseString (0x22 :: body) = some (d, t)) :
    StringBody body d t := by
  rw [parseString_quote] at h
  cases hscan : scanString (body.length + 1) body with
  | none => rw [hscan] at h; cases h
  | some r =>
      obtain ⟨n, e⟩ := r
      obtain ⟨raw, after, rfl, rfl, hraw⟩ := segment_of_scanString hscan
      simp only [hscan, List.drop_left, List.take_left] at h
      cases after with
      | nil => cases h
      | cons q after =>
          dsimp only at h
          split at h
          · rename_i hq
            obtain rfl : q = 0x22 := hq
            split at h
            · split at h
              · rename_i hd
                obtain ⟨rfl, rfl⟩ := Prod.mk.inj (Option.some.inj h)
                exact stringBody_of_decodeString hraw (Nat.lt_succ_self _) hd _
              · cases h
              · cases h
            · rename_i he
              obtain ⟨rfl, rfl⟩ := Prod.mk.inj (Option.some.inj h)
              exact stringBody_of_plain hraw (by simpa using he) _
          · cases h

theorem parseString_of_stringBody {s d t : Bytes} (h : StringBody s d t) :
    parseString (0x22 :: s) = some (d, t) := by
  obtain ⟨raw, e, rfl, hraw, he, hd⟩ := segment_of_stringBody h
  rw [parseString_quote, scanString_segment hraw t _ (by simp)]
  simp only [List.drop_left, List.take_left]
  rw [if_pos (show (0x22 : UInt8) = ch '"' from rfl)]
  cases e with
  | true => simp only [if_true, hd _ (Nat.lt_succ_self _)]
  | false => simp only [he rfl, Bool.false_eq_true, if_false]

/-- ParseString reads exactly the strings of the grammar. -/
theorem parseString_iff {rest d t : Bytes} :
    parseString rest = some (d, t) ↔ ∃ s, rest = 0x22 :: s ∧ StringBody s d t := by
  constructor
  · intro h
    cases rest with
    | nil => cases h
    | cons q body =>
        by_cases hq : q = ch '"'
        · obtain rfl : q = 0x22 := hq
          exact ⟨body, rfl, stringBody_of_parseString h⟩
        · rw [parseString, if_neg hq] at h
          cases h
  · rintro ⟨s, rfl, hs⟩
    exact parseString_of_stringBody hs

end WebHtop.Common
