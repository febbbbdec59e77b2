import WebHtop.Lib.Decimal
import WebHtop.Lib.Utf8

/-!
# The tokens of JSON texts

The lexical rules of RFC 8259 as relations between the text in front of a token and
the text behind it. Strings come with the UTF-8 bytes they denote; numbers are kept
as text, since their reading differs from one implementation to the next.
-/

namespace WebHtop.Lib.Json

open WebHtop.Lib.Decimal

def isWhitespace (c : UInt8) : Bool := c = 0x20 || c = 0x09 || c = 0x0A || c = 0x0D

/-- `Ws s t`: whitespace leads from `s` to `t`. -/
inductive Ws : List UInt8 → List UInt8 → Prop
  | nil {s : List UInt8} : Ws s s
  | cons {c : UInt8} {s t : List UInt8} : isWhitespace c = true → Ws s t → Ws (c :: s) t

theorem Ws.length_le {s t : List UInt8} (h : Ws s t) : t.length ≤ s.length := by
  induction h with
  | nil => exact Nat.le_refl _
  | cons _ _ ih => exact Nat.le_succ_of_le ih

theorem Ws.trans {s t u : List UInt8} (h : Ws s t) (h' : Ws t u) : Ws s u := by
  induction h with
  | nil => exact h'
  | cons hc _ ih => exact .cons hc (ih h')

/-- More text behind whitespace changes nothing. -/
theorem Ws.append {s t : List UInt8} (h : Ws s t) (r : List UInt8) : Ws (s ++ r) (t ++ r) := by
  induction h with
  | nil => exact .nil
  | cons hc _ ih => exact .cons hc ih

/-! ## Strings -/

/-- The value of a hexadecimal digit, in either case. -/
def hexValue (c : UInt8) : Option Nat :=
  let n := c.toNat
  if 48 ≤ n ∧ n ≤ 57 then some (n - 48)
  else if 97 ≤ n ∧ n ≤ 102 then some (n - 87)
  else if 65 ≤ n ∧ n ≤ 70 then some (n - 55)
  else none

/-- Four hexadecimal digits and the number they write. -/
inductive Hex4 : List UInt8 → Nat → Prop
  | mk {a b c d : UInt8} {i j k l : Nat} : hexValue a = some i → hexValue b = some j →
      hexValue c = some k → hexValue d = some l →
      Hex4 [a, b, c, d] (((i * 16 + j) * 16 + k) * 16 + l)

theorem hexValue_lt {c : UInt8} {n : Nat} (h : hexValue c = some n) : n < 16 := by
  unfold hexValue at h
  simp only at h
  split_ifs at h <;> obtain rfl := Option.some.inj h <;> omega

theorem Hex4.lt {h : List UInt8} {n : Nat} (hh : Hex4 h n) : n < 0x10000 := by
  cases hh with
  | mk ha hb hc hd =>
      have := hexValue_lt ha
      have := hexValue_lt hb
      have := hexValue_lt hc
      have := hexValue_lt hd
      omega

theorem Hex4.length {h : List UInt8} {n : Nat} (hh : Hex4 h n) : h.length = 4 := by
  cases hh
  rfl

theorem Hex4.digits {h : List UInt8} {n : Nat} (hh : Hex4 h n) :
    ∀ d ∈ h, (hexValue d).isSome = true := by
  cases hh with
  | mk ha hb hc hd => simp [ha, hb, hc, hd]

/-- What the two-character escapes stand for. -/
def simpleEscape (c : UInt8) : Option UInt8 :=
  if c = 0x22 then some 0x22       -- quotation mark
  else if c = 0x5C then some 0x5C  -- reverse solidus
  else if c = 0x2F then some 0x2F  -- solidus
  else if c = 0x62 then some 0x08  -- backspace
  else if c = 0x66 then some 0x0C  -- form feed
  else if c = 0x6E then some 0x0A  -- line feed
  else if c = 0x72 then some 0x0D  -- carriage return
  else if c = 0x74 then some 0x09  -- tab
  else none

/-- The characters that stand for themselves. -/
def Unescaped (c : Char) : Prop :=
  0x20 ≤ c.val.toNat ∧ c.val.toNat ≠ 0x22 ∧ c.val.toNat ≠ 0x5C

/-- The escaped bytes are not among those of other characters. -/
theorem Unescaped.bytes {c : Char} (h : Unescaped c) {b : UInt8} (hb : b ∈ Utf8.encode c) :
    b ≠ 0x22 ∧ b ≠ 0x5C ∧ 0x20 ≤ b.toNat := by
  obtain ⟨h1, h2, h3⟩ := h
  have hquote : (0x22 : UInt8).toNat = 0x22 := rfl
  have hsolidus : (0x5C : UInt8).toNat = 0x5C := rfl
  by_cases hlt : b.toNat < 128
  · have hv := Utf8.encode_singleton ((Utf8.sequence_encode c).ascii hb hlt)
    refine ⟨?_, ?_, by omega⟩
    · rintro rfl
      omega
    · rintro rfl
      omega
  · refine ⟨?_, ?_, by omega⟩
    · rintro rfl
      omega
    · rintro rfl
      omega

/-- A byte that is not escaped and starts the encoding of a character, which is then not
escaped either. -/
theorem unescaped_of_byte {c : Char} {b : UInt8} {bs : List UInt8} (hc : Utf8.encode c = b :: bs)
    (h1 : b ≠ 0x22) (h2 : b ≠ 0x5C) (h3 : 0x20 ≤ b.toNat) : Unescaped c := by
  by_cases hlt : c.val.toNat < 0x80
  · rw [Utf8.encode_of_lt hlt, List.cons.injEq] at hc
    obtain ⟨rfl, -⟩ := hc
    rw [Utf8.toNat_ofNat (by omega)] at h3
    refine ⟨h3, fun h => h1 ?_, fun h => h2 ?_⟩ <;> rw [h] <;> rfl
  · exact ⟨by omega, by omega, by omega⟩

/-- The characters of a string up to its closing quotation mark, and the bytes they
denote: `StringBody s d t` leads from `s` to `t`. -/
inductive StringBody : List UInt8 → List UInt8 → List UInt8 → Prop
  | close {s : List UInt8} : StringBody (0x22 :: s) [] s
  | char (c : Char) {s d t : List UInt8} : Unescaped c → StringBody s d t →
      StringBody (Utf8.encode c ++ s) (Utf8.encode c ++ d) t
  | escape {e b : UInt8} {s d t : List UInt8} : simpleEscape e = some b → StringBody s d t →
      StringBody (0x5C :: e :: s) (b :: d) t
  | unicode (c : Char) {h s d t : List UInt8} : Hex4 h c.val.toNat → StringBody s d t →
      StringBody (0x5C :: 0x75 :: (h ++ s)) (Utf8.encode c ++ d) t
  | surrogates (c : Char) {h h' s d t : List UInt8} {high low : Nat} :
      Hex4 h high → Hex4 h' low → 0xD800 ≤ high → high ≤ 0xDBFF → 0xDC00 ≤ low → low ≤ 0xDFFF →
      c.val.toNat = 0x10000 + (high - 0xD800) * 0x400 + (low - 0xDC00) → StringBody s d t →
      StringBody (0x5C :: 0x75 :: (h ++ 0x5C :: 0x75 :: (h' ++ s))) (Utf8.encode c ++ d) t

theorem ascii_wellFormed {b : UInt8} (h : b.toNat < 0x80) : Utf8.WellFormed [b] := by
  obtain ⟨c, hc⟩ := (Utf8.Sequence.one h).scalar
  exact hc ▸ Utf8.wellFormed_encode c

theorem wellFormed_of_ascii {b : List UInt8}
    (h : (b.all fun c => decide (c.toNat < 0x80)) = true) : Utf8.WellFormed b := by
  induction b with
  | nil => exact Utf8.wellFormed_nil
  | cons c b ih =>
      rw [List.all_cons, Bool.and_eq_true, decide_eq_true_eq] at h
      have := (ascii_wellFormed h.1).append (ih h.2)
      rwa [List.singleton_append] at this

theorem simpleEscape_lt {e b : UInt8} (h : simpleEscape e = some b) : b.toNat < 0x80 := by
  unfold simpleEscape at h
  split_ifs at h <;> obtain rfl := Option.some.inj h <;> decide

/-- A string denotes well-formed UTF-8. -/
theorem StringBody.wellFormed {s d t : List UInt8} (h : StringBody s d t) : Utf8.WellFormed d := by
  induction h with
  | close => exact Utf8.wellFormed_nil
  | char c _ _ ih => exact (Utf8.wellFormed_encode c).append ih
  | escape he _ ih => exact (ascii_wellFormed (simpleEscape_lt he)).append ih
  | unicode c _ _ ih => exact (Utf8.wellFormed_encode c).append ih
  | surrogates c _ _ _ _ _ _ _ _ ih => exact (Utf8.wellFormed_encode c).append ih

theorem StringBody.length_lt {s d t : List UInt8} (h : StringBody s d t) :
    t.length < s.length := by
  induction h with
  | close => exact Nat.lt_succ_self _
  | char c _ _ ih =>
      rw [List.length_append]
      omega
  | escape _ _ ih =>
      simp only [List.length_cons]
      omega
  | unicode c _ _ ih =>
      simp only [List.length_cons, List.length_append]
      omega
  | surrogates c _ _ _ _ _ _ _ _ ih =>
      simp only [List.length_cons, List.length_append]
      omega

/-- More text behind a string changes nothing. -/
theorem StringBody.append {s d t : List UInt8} (h : StringBody s d t) (r : List UInt8) :
    StringBody (s ++ r) d (t ++ r) := by
  induction h with
  | close => exact .close
  | char c hc _ ih =>
      rw [List.append_assoc]
      exact .char c hc ih
  | escape he _ ih => exact .escape he ih
  | unicode c hh _ ih =>
      rw [List.cons_append, List.cons_append, List.append_assoc]
      exact .unicode c hh ih
  | surrogates c hh hh' h1 h2 h3 h4 hv _ ih =>
      simp only [List.cons_append, List.append_assoc]
      exact .surrogates c hh hh' h1 h2 h3 h4 hv ih

/-! ## Numbers -/

def Digits (t : List UInt8) : Prop := ∀ c ∈ t, isDigit c = true

/-- The integer part: no superfluous leading zero. -/
def IntPart (t : List UInt8) : Prop :=
  t = [0x30] ∨ ∃ c ds, t = c :: ds ∧ isDigit c = true ∧ c ≠ 0x30 ∧ Digits ds

def FracPart (t : List UInt8) : Prop :=
  t = [] ∨ ∃ ds, t = 0x2E :: ds ∧ ds ≠ [] ∧ Digits ds

def ExpPart (t : List UInt8) : Prop :=
  t = [] ∨ ∃ e sign ds, t = e :: (sign ++ ds) ∧ (e = 0x65 ∨ e = 0x45) ∧
    (sign = [] ∨ sign = [0x2B] ∨ sign = [0x2D]) ∧ ds ≠ [] ∧ Digits ds

/-- The numbers of RFC 8259. -/
def NumberText (t : List UInt8) : Prop :=
  ∃ sign i f e, t = sign ++ i ++ f ++ e ∧ (sign = [] ∨ sign = [0x2D]) ∧ IntPart i ∧ FracPart f ∧
    ExpPart e

theorem intPart_numeral (n : Nat) : IntPart (numeral n) := by
  rcases numeral_cases n with h | ⟨c, t, h, hc, hz, ht⟩
  · exact .inl h
  · exact .inr ⟨c, t, h, hc, hz, ht⟩

theorem IntPart.digits {t : List UInt8} (h : IntPart t) : Digits t ∧ t ≠ [] := by
  rcases h with rfl | ⟨c, ds, rfl, hc, -, hd⟩
  · refine ⟨fun c hm => ?_, by simp⟩
    obtain rfl := List.mem_singleton.mp hm
    rfl
  · refine ⟨fun d hm => ?_, by simp⟩
    rcases List.mem_cons.mp hm with rfl | hm
    · exact hc
    · exact hd d hm

theorem IntPart.head {t : List UInt8} (h : IntPart t) : ∃ c cs, t = c :: cs ∧ isDigit c = true := by
  obtain ⟨hd, hne⟩ := h.digits
  obtain ⟨c, cs, rfl⟩ := List.exists_cons_of_ne_nil hne
  exact ⟨c, cs, rfl, hd c List.mem_cons_self⟩

end WebHtop.Lib.Json
