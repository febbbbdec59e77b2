import WebHtop.Lib.Utf8
import WebHtop.Common.Bytes

/-!
# The UTF-8 validator and encoder

`Utf8Length` of common/utf8.hpp and `EncodeUtf8_` of the JSON parser, written apart in
the source, against the one code they both implement.
-/

namespace WebHtop.Common

open WebHtop.Lib

def utf8Length (text : Bytes) (offset : Nat) : Nat :=
  match text.drop offset with
  | [] => 0
  | b :: bs =>
    let first := b.toNat
    if first < 128 then 1
    else
      let length :=
        if first ≥ 0xc2 ∧ first ≤ 0xdf then 2
        else if first ≥ 0xe0 ∧ first ≤ 0xef then 3
        else if first ≥ 0xf0 ∧ first ≤ 0xf4 then 4
        else 0
      if length = 0 ∨ offset + length > text.length then 0
      else if (bs.take (length - 1)).any fun byte => byte.toNat < 0x80 || byte.toNat > 0xbf then 0
      else
        let second := (bs.headD 0).toNat
        if (first = 0xe0 ∧ second < 0xa0) ∨ (first = 0xed ∧ second ≥ 0xa0) ∨
            (first = 0xf0 ∧ second < 0x90) ∨ (first = 0xf4 ∧ second ≥ 0x90) then 0
        else length

/-- EncodeUtf8_: what it appends, unless the number is no code point. -/
def encodeUtf8 (cp : Nat) : Option Bytes :=
  if cp < 0x80 then some [UInt8.ofNat cp]
  else if cp < 0x800 then
    some [UInt8.ofNat (0xC0 ||| (cp >>> 6)), UInt8.ofNat (0x80 ||| (cp &&& 0x3F))]
  else if cp < 0x10000 then
    some [UInt8.ofNat (0xE0 ||| (cp >>> 12)), UInt8.ofNat (0x80 ||| ((cp >>> 6) &&& 0x3F)),
      UInt8.ofNat (0x80 ||| (cp &&& 0x3F))]
  else if cp ≤ 0x10FFFF then
    some [UInt8.ofNat (0xF0 ||| (cp >>> 18)), UInt8.ofNat (0x80 ||| ((cp >>> 12) &&& 0x3F)),
      UInt8.ofNat (0x80 ||| ((cp >>> 6) &&& 0x3F)), UInt8.ofNat (0x80 ||| (cp &&& 0x3F))]
  else none

/-- The last condition of the validator, on the first two bytes. -/
theorem second_ok {a b : Nat} (h : ¬ ((a = 0xe0 ∧ b < 0xa0) ∨ (a = 0xed ∧ b ≥ 0xa0) ∨
    (a = 0xf0 ∧ b < 0x90) ∨ (a = 0xf4 ∧ b ≥ 0x90))) :
    ¬ (a = 0xe0 ∧ b < 0xa0) ∧ ¬ (a = 0xed ∧ 0xa0 ≤ b) ∧ ¬ (a = 0xf0 ∧ b < 0x90) ∧
      ¬ (a = 0xf4 ∧ 0x90 ≤ b) := by omega

theorem utf8Length_append {text : Bytes} (h : Utf8.Sequence text) (rest : Bytes) :
    utf8Length (text ++ rest) 0 = text.length := by
  cases h with
  | @one a ha => simp [utf8Length, ha]
  | @two a b h1 h2 hb =>
      obtain ⟨hb1, hb2⟩ := hb
      have hlength : a.toNat ≥ 0xc2 ∧ a.toNat ≤ 0xdf := by omega
      simp only [utf8Length, List.drop_zero, List.cons_append, List.nil_append]
      rw [if_neg (by omega), if_pos hlength, if_neg (by simp), if_neg (by simp; omega),
        if_neg (by simp only [List.headD_cons]; omega)]
      rfl
  | @three a b c h1 h2 hb hc hlow hhigh =>
      obtain ⟨hb1, hb2⟩ := hb
      obtain ⟨hc1, hc2⟩ := hc
      have hnot2 : ¬ (a.toNat ≥ 0xc2 ∧ a.toNat ≤ 0xdf) := by omega
      have hlength : a.toNat ≥ 0xe0 ∧ a.toNat ≤ 0xef := by omega
      simp only [utf8Length, List.drop_zero, List.cons_append, List.nil_append]
      rw [if_neg (by omega), if_neg hnot2, if_pos hlength, if_neg (by simp),
        if_neg (by simp; omega), if_neg (by simp only [List.headD_cons]; omega)]
      rfl
  | @four a b c d h1 h2 hb hc hd hlow hhigh =>
      obtain ⟨hb1, hb2⟩ := hb
      obtain ⟨hc1, hc2⟩ := hc
      obtain ⟨hd1, hd2⟩ := hd
      have hnot2 : ¬ (a.toNat ≥ 0xc2 ∧ a.toNat ≤ 0xdf) := by omega
      have hnot3 : ¬ (a.toNat ≥ 0xe0 ∧ a.toNat ≤ 0xef) := by omega
      have hlength : a.toNat ≥ 0xf0 ∧ a.toNat ≤ 0xf4 := by omega
      simp only [utf8Length, List.drop_zero, List.cons_append, List.nil_append]
      rw [if_neg (by omega), if_neg hnot2, if_neg hnot3, if_pos hlength,
        if_neg (by simp), if_neg (by simp; omega), if_neg (by simp only [List.headD_cons]; omega)]
      rfl

theorem continuation_of_any {bs : Bytes}
    (h : ¬ (bs.any fun byte => byte.toNat < 0x80 || byte.toNat > 0xbf) = true) {b : UInt8}
    (hb : b ∈ bs) : Utf8.Continuation b.toNat := by
  simp only [List.any_eq_true, not_exists, not_and, Bool.or_eq_true, decide_eq_true_eq] at h
  have := h b hb
  exact ⟨by omega, by omega⟩

theorem sequence_of_utf8Length {text : Bytes} (h : utf8Length text 0 ≠ 0) :
    Utf8.Sequence (text.take (utf8Length text 0)) := by
  cases text with
  | nil => simp [utf8Length] at h
  | cons a bs =>
      generalize hn : utf8Length (a :: bs) 0 = n at h ⊢
      simp only [utf8Length, List.drop_zero] at hn
      by_cases h1 : a.toNat < 128
      · rw [if_pos h1] at hn
        subst hn
        exact .one h1
      rw [if_neg h1] at hn
      generalize hl : (if a.toNat ≥ 0xc2 ∧ a.toNat ≤ 0xdf then 2
        else if a.toNat ≥ 0xe0 ∧ a.toNat ≤ 0xef then 3
        else if a.toNat ≥ 0xf0 ∧ a.toNat ≤ 0xf4 then 4 else 0) = length at hn
      split_ifs at hn with hshort hcont hsecond
      · omega
      · omega
      · omega
      subst hn
      have hroom : length - 1 ≤ bs.length := by
        simp only [List.length_cons] at hshort
        omega
      obtain ⟨s1, s2, s3, s4⟩ := second_ok hsecond
      split_ifs at hl with hr2 hr3 hr4
      · subst hl
        match bs, hroom with
        | b :: bs, _ =>
            exact .two (by omega) (by omega) (continuation_of_any hcont (by simp))
      · subst hl
        match bs, hroom with
        | b :: c :: bs, _ =>
            exact .three (by omega) (by omega) (continuation_of_any hcont (by simp))
              (continuation_of_any hcont (by simp)) s1 s2
      · subst hl
        match bs, hroom with
        | b :: c :: d :: bs, _ =>
            exact .four (by omega) (by omega) (continuation_of_any hcont (by simp))
              (continuation_of_any hcont (by simp)) (continuation_of_any hcont (by simp)) s3 s4
      · omega

/-- The validator finds exactly the encodings of scalar values. -/
theorem utf8Length_pos {text : Bytes} (h : utf8Length text 0 ≠ 0) :
    ∃ c, text.take (utf8Length text 0) = Utf8.encode c ∧
      text = Utf8.encode c ++ text.drop (utf8Length text 0) := by
  obtain ⟨c, hc⟩ := (sequence_of_utf8Length h).scalar
  exact ⟨c, hc.symm, by rw [hc, List.take_append_drop]⟩

theorem utf8Length_encode (c : Char) (rest : Bytes) :
    utf8Length (Utf8.encode c ++ rest) 0 = (Utf8.encode c).length :=
  utf8Length_append (Utf8.sequence_encode c) rest

/-- A marker bit above the payload bits is added by the disjunction. -/
theorem marked {n : Nat} (i k : Nat) (h : n < 2 ^ i) : 2 ^ i * k ||| n = n + 2 ^ i * k := by
  rw [← Nat.two_pow_add_eq_or_of_lt h, Nat.add_comm]

theorem low6 (n : Nat) : n &&& 0x3F = n % 64 := Nat.and_two_pow_sub_one_eq_mod n 6

theorem continuation_byte (n : Nat) :
    UInt8.ofNat (0x80 ||| (n &&& 0x3F)) = UInt8.ofNat (n % 64 + 0x80) := by
  rw [low6, show (0x80 : Nat) = 2 ^ 6 * 2 from rfl, marked 6 2 (by omega)]

/-- The encoder writes the UTF-8 form of every code point, surrogates included. -/
theorem encodeUtf8_eq {v : Nat} (hlt : v < 0x110000) : encodeUtf8 v = some (Utf8.encodeNat v) := by
  unfold encodeUtf8 Utf8.encodeNat
  by_cases h1 : v < 0x80
  · have h1' : v ≤ 0x7f := by omega
    rw [if_pos h1, if_pos h1']
  have h1' : ¬ v ≤ 0x7f := by omega
  rw [if_neg h1, if_neg h1']
  by_cases h2 : v < 0x800
  · have h2' : v ≤ 0x7ff := by omega
    rw [if_pos h2, if_pos h2', continuation_byte, Nat.shiftRight_eq_div_pow,
      show (0xC0 : Nat) = 2 ^ 6 * 3 from rfl, marked 6 3 (by omega),
      Nat.mod_eq_of_lt (a := v / 64) (by omega)]
  have h2' : ¬ v ≤ 0x7ff := by omega
  rw [if_neg h2, if_neg h2']
  by_cases h3 : v < 0x10000
  · have h3' : v ≤ 0xffff := by omega
    rw [if_pos h3, if_pos h3', continuation_byte, continuation_byte,
      Nat.shiftRight_eq_div_pow, Nat.shiftRight_eq_div_pow,
      show (0xE0 : Nat) = 2 ^ 5 * 7 from rfl, marked 5 7 (by omega),
      Nat.mod_eq_of_lt (a := v / 4096) (by omega)]
  · have h3' : ¬ v ≤ 0xffff := by omega
    have h4 : v ≤ 0x10FFFF := by omega
    rw [if_neg h3, if_pos h4, if_neg h3', continuation_byte, continuation_byte,
      continuation_byte, Nat.shiftRight_eq_div_pow, Nat.shiftRight_eq_div_pow,
      Nat.shiftRight_eq_div_pow, show (0xF0 : Nat) = 2 ^ 4 * 15 from rfl, marked 4 15 (by omega),
      Nat.mod_eq_of_lt (a := v / 262144) (by omega)]

theorem encodeUtf8_scalar (c : Char) : encodeUtf8 c.val.toNat = some (Utf8.encode c) :=
  encodeUtf8_eq (Utf8.scalar_lt c).1

/-! ## One code -/

/-- The Unicode scalar values. -/
def Scalar (c : Nat) : Prop := c ≤ 0x10FFFF ∧ ¬ (0xD800 ≤ c ∧ c ≤ 0xDFFF)

theorem Scalar.char {c : Nat} (h : Scalar c) : ∃ x : Char, x.val.toNat = c := by
  obtain ⟨hlt, hs⟩ := h
  exact ⟨Utf8.scalar c (by unfold Nat.isValidChar; omega), rfl⟩

theorem scalar_char (x : Char) : Scalar x.val.toNat := by
  obtain ⟨hlt, hs⟩ := Utf8.scalar_lt x
  exact ⟨by omega, by omega⟩

theorem Scalar.encodeUtf8 {c : Nat} (h : Scalar c) : encodeUtf8 c = some (Utf8.encodeNat c) := by
  obtain ⟨hlt, -⟩ := h
  exact encodeUtf8_eq (by omega)

theorem Scalar.sequence {c : Nat} (h : Scalar c) : Utf8.Sequence (Utf8.encodeNat c) := by
  obtain ⟨x, rfl⟩ := h.char
  rw [← Utf8.encode_eq]
  exact Utf8.sequence_encode x

theorem encodeUtf8_unique {c d : Nat} (hc : Scalar c) (hd : Scalar d)
    (h : encodeUtf8 c = encodeUtf8 d) : c = d := by
  rw [hc.encodeUtf8, hd.encodeUtf8] at h
  obtain ⟨hclt, -⟩ := hc
  obtain ⟨hdlt, -⟩ := hd
  calc c = Utf8.number (Utf8.encodeNat c) := (Utf8.number_encodeNat (by omega)).symm
    _ = Utf8.number (Utf8.encodeNat d) := by rw [Option.some.inj h]
    _ = d := Utf8.number_encodeNat (by omega)

/-- The validator looks at nothing before the offset. -/
theorem utf8Length_drop (text : Bytes) (offset : Nat) :
    utf8Length text offset = utf8Length (text.drop offset) 0 := by
  unfold utf8Length
  rw [List.drop_zero]
  cases h : text.drop offset with
  | nil => rfl
  | cons b bs =>
      have hlen := congrArg List.length h
      have hroom : offset < text.length := by
        rw [List.length_drop, List.length_cons] at hlen
        omega
      have hend (n : Nat) : offset + n > text.length ↔ 0 + n > (b :: bs).length := by
        rw [← hlen, List.length_drop]
        omega
      simp only [hend]

/-- The encodings of scalar values at an offset: what is found there, and how long it is. -/
theorem utf8Length_eq_iff (text : Bytes) (offset n : Nat) :
    (0 < n ∧ utf8Length text offset = n) ↔
      ∃ c, Scalar c ∧ ∃ bytes, encodeUtf8 c = some bytes ∧ bytes.length = n ∧
        (text.drop offset).take n = bytes := by
  rw [utf8Length_drop]
  constructor
  · intro ⟨hn, hlen⟩
    have hfound : utf8Length (text.drop offset) 0 ≠ 0 := by omega
    obtain ⟨x, htake, happ⟩ := utf8Length_pos hfound
    refine ⟨x.val.toNat, scalar_char x, Utf8.encode x, encodeUtf8_scalar x, ?_, ?_⟩
    · rw [← hlen, happ, utf8Length_encode]
    · rw [← hlen]
      exact htake
  · intro ⟨c, hc, bytes, henc, hlen, htake⟩
    obtain rfl : Utf8.encodeNat c = bytes := Option.some.inj (hc.encodeUtf8.symm.trans henc)
    have happ := utf8Length_append hc.sequence ((text.drop offset).drop n)
    nth_rewrite 1 [← htake] at happ
    rw [List.take_append_drop] at happ
    have hpos := hc.sequence.length_mem
    simp only [List.mem_cons, List.not_mem_nil, or_false] at hpos
    exact ⟨by omega, by omega⟩

theorem utf8Length_le (text : Bytes) : utf8Length text 0 ≤ text.length := by
  by_cases hpos : utf8Length text 0 = 0
  · rw [hpos]
    exact Nat.zero_le _
  · obtain ⟨c, -, bytes, -, hlength, htake⟩ :=
      (utf8Length_eq_iff text 0 _).mp ⟨Nat.pos_of_ne_zero hpos, rfl⟩
    calc utf8Length text 0 = ((text.drop 0).take (utf8Length text 0)).length := by
          rw [htake, hlength]
      _ ≤ text.length := by
          rw [List.drop_zero]
          exact List.length_take_le' _ _

/-- The validator and the encoder define one code: the validator finds `n` bytes exactly
where the encoding of a scalar value stands, of one value only, and refuses everything
else; no encoding is a proper prefix of another. -/
theorem utf8Length_encodeUtf8 :
    (∀ (text : Bytes) (offset n : Nat),
      ((0 < n ∧ utf8Length text offset = n) ↔
        ∃ c, Scalar c ∧ ∃ bytes, encodeUtf8 c = some bytes ∧ bytes.length = n ∧
          (text.drop offset).take n = bytes) ∧
      ∀ c d, Scalar c → Scalar d →
        encodeUtf8 c = some ((text.drop offset).take n) →
        encodeUtf8 d = some ((text.drop offset).take n) → c = d) ∧
    (∀ (text : Bytes) (offset : Nat), utf8Length text offset = 0 ↔
      ∀ c, Scalar c → ∀ bytes, encodeUtf8 c = some bytes → ¬ bytes <+: text.drop offset) ∧
    ∀ c d, Scalar c → Scalar d → ∀ x y, encodeUtf8 c = some x → encodeUtf8 d = some y →
      x <+: y → x = y := by
  refine ⟨fun text offset n => ⟨utf8Length_eq_iff text offset n, ?_⟩, ?_, ?_⟩
  · intro c d hc hd hx hy
    exact encodeUtf8_unique hc hd (hx.trans hy.symm)
  · intro text offset
    constructor
    · intro hzero c hc bytes henc hle
      have hn := (utf8Length_eq_iff text offset bytes.length).mpr
        ⟨c, hc, bytes, henc, rfl, (List.prefix_iff_eq_take.mp hle).symm⟩
      omega
    · intro hnone
      by_contra hpos
      obtain ⟨c, hc, bytes, henc, -, htake⟩ :=
        (utf8Length_eq_iff text offset _).mp ⟨Nat.pos_of_ne_zero hpos, rfl⟩
      exact hnone c hc bytes henc (htake ▸ List.take_prefix _ _)
  · intro c d hc hd x y hx hy hle
    obtain rfl := Option.some.inj (hc.encodeUtf8.symm.trans hx)
    obtain rfl := Option.some.inj (hd.encodeUtf8.symm.trans hy)
    exact hc.sequence.prefix_eq hd.sequence hle

end WebHtop.Common
