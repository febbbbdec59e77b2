import Mathlib.Algebra.BigOperators.Group.List.Basic
import Mathlib.Data.Int.Log
import Mathlib.Data.List.Induction
import Mathlib.Data.List.Nodup
import Mathlib.Data.List.SplitBy
import Mathlib.Data.Nat.Digits.Lemmas
import Mathlib.Data.Rat.Floor
import Mathlib.Tactic.FieldSimp
import Mathlib.Tactic.Linarith
import Mathlib.Tactic.Positivity

/-!
# UTF-8 as a code for Unicode scalar values

`Char` is the type of scalar values and `String.utf8EncodeChar` their encoding. A byte
string is well-formed when it is a concatenation of encodings. The byte patterns of
one encoding are given next to it, so that a validator can be compared with either.
-/

namespace WebHtop.Lib.Utf8

abbrev encode (c : Char) : List UInt8 := String.utf8EncodeChar c

def encodeAll (cs : List Char) : List UInt8 := cs.flatMap encode

def WellFormed (b : List UInt8) : Prop := ∃ cs, b = encodeAll cs

@[simp] theorem encodeAll_nil : encodeAll [] = [] := rfl

@[simp] theorem encodeAll_cons (c : Char) (cs : List Char) :
    encodeAll (c :: cs) = encode c ++ encodeAll cs := by
  simp [encodeAll]

theorem wellFormed_nil : WellFormed [] := ⟨[], rfl⟩

theorem WellFormed.append {a b : List UInt8} (ha : WellFormed a) (hb : WellFormed b) :
    WellFormed (a ++ b) := by
  obtain ⟨cs, rfl⟩ := ha
  obtain ⟨ds, rfl⟩ := hb
  exact ⟨cs ++ ds, by simp [encodeAll]⟩

theorem wellFormed_encode (c : Char) : WellFormed (encode c) := ⟨[c], by simp⟩

theorem scalar_lt (c : Char) : c.val.toNat < 0x110000 ∧
    ¬ (0xd800 ≤ c.val.toNat ∧ c.val.toNat < 0xe000) := by
  have h := c.valid
  simp only [UInt32.isValidChar, Nat.isValidChar] at h
  omega

/-- The encoding by the number of the scalar value. -/
def encodeNat (v : Nat) : List UInt8 :=
  if v ≤ 0x7f then [UInt8.ofNat v]
  else if v ≤ 0x7ff then [UInt8.ofNat (v / 64 % 32 + 0xc0), UInt8.ofNat (v % 64 + 0x80)]
  else if v ≤ 0xffff then
    [UInt8.ofNat (v / 4096 % 16 + 0xe0), UInt8.ofNat (v / 64 % 64 + 0x80),
      UInt8.ofNat (v % 64 + 0x80)]
  else
    [UInt8.ofNat (v / 262144 % 8 + 0xf0), UInt8.ofNat (v / 4096 % 64 + 0x80),
      UInt8.ofNat (v / 64 % 64 + 0x80), UInt8.ofNat (v % 64 + 0x80)]

theorem encode_eq (c : Char) : encode c = encodeNat c.val.toNat := rfl

def Continuation (n : Nat) : Prop := 0x80 ≤ n ∧ n ≤ 0xbf

/-- The well-formed byte sequences: shortest forms only, no surrogates, nothing
beyond the last scalar value. -/
inductive Sequence : List UInt8 → Prop
  | one {a : UInt8} : a.toNat < 0x80 → Sequence [a]
  | two {a b : UInt8} : 0xc2 ≤ a.toNat → a.toNat ≤ 0xdf → Continuation b.toNat → Sequence [a, b]
  | three {a b c : UInt8} : 0xe0 ≤ a.toNat → a.toNat ≤ 0xef → Continuation b.toNat →
      Continuation c.toNat → ¬ (a.toNat = 0xe0 ∧ b.toNat < 0xa0) →
      ¬ (a.toNat = 0xed ∧ 0xa0 ≤ b.toNat) → Sequence [a, b, c]
  | four {a b c d : UInt8} : 0xf0 ≤ a.toNat → a.toNat ≤ 0xf4 → Continuation b.toNat →
      Continuation c.toNat → Continuation d.toNat → ¬ (a.toNat = 0xf0 ∧ b.toNat < 0x90) →
      ¬ (a.toNat = 0xf4 ∧ 0x90 ≤ b.toNat) → Sequence [a, b, c, d]

theorem toNat_ofNat {n : Nat} (h : n < 256) : (UInt8.ofNat n).toNat = n := by
  rw [UInt8.toNat_ofNat']
  exact Nat.mod_eq_of_lt h

theorem sequence_encode (c : Char) : Sequence (encode c) := by
  obtain ⟨hlt, hs⟩ := scalar_lt c
  rw [encode_eq]
  generalize c.val.toNat = v at hlt hs
  unfold encodeNat
  split
  · exact .one (by simp (disch := omega) only [toNat_ofNat]; omega)
  · split
    · refine .two ?_ ?_ ⟨?_, ?_⟩ <;> simp (disch := omega) only [toNat_ofNat] <;> omega
    · split
      · refine .three ?_ ?_ ⟨?_, ?_⟩ ⟨?_, ?_⟩ ?_ ?_ <;>
          simp (disch := omega) only [toNat_ofNat] <;> omega
      · refine .four ?_ ?_ ⟨?_, ?_⟩ ⟨?_, ?_⟩ ⟨?_, ?_⟩ ?_ ?_ <;>
          simp (disch := omega) only [toNat_ofNat] <;> omega

/-- The scalar value with a given number. -/
def scalar (v : Nat) (h : v.isValidChar) : Char := Char.ofNatAux v h

theorem encode_scalar {v : Nat} (h : v.isValidChar) : encode (scalar v h) = encodeNat v := rfl

theorem ofNat_eq {n : Nat} {a : UInt8} (h : n = a.toNat) : UInt8.ofNat n = a := by
  rw [h]
  exact UInt8.ofNat_toNat

/-- Every well-formed sequence encodes a scalar value. -/
theorem Sequence.scalar {b : List UInt8} (h : Sequence b) : ∃ c, encode c = b := by
  cases h with
  | @one a ha =>
      refine ⟨Utf8.scalar a.toNat (.inl (by omega)), ?_⟩
      rw [encode_scalar, encodeNat, if_pos (by omega), ofNat_eq rfl]
  | @two a b h1 h2 hb =>
      obtain ⟨hb1, hb2⟩ := hb
      refine ⟨Utf8.scalar ((a.toNat - 0xc0) * 64 + (b.toNat - 0x80)) (.inl (by omega)), ?_⟩
      rw [encode_scalar, encodeNat, if_neg (by omega), if_pos (by omega), ofNat_eq (a := a) (by omega),
        ofNat_eq (a := b) (by omega)]
  | @three a b c h1 h2 hb hc hlow hhigh =>
      obtain ⟨hb1, hb2⟩ := hb
      obtain ⟨hc1, hc2⟩ := hc
      refine ⟨Utf8.scalar ((a.toNat - 0xe0) * 4096 + (b.toNat - 0x80) * 64 + (c.toNat - 0x80))
        (by unfold Nat.isValidChar; omega), ?_⟩
      rw [encode_scalar, encodeNat, if_neg (by omega), if_neg (by omega), if_pos (by omega), ofNat_eq (a := a) (by omega),
        ofNat_eq (a := b) (by omega), ofNat_eq (a := c) (by omega)]
  | @four a b c d h1 h2 hb hc hd hlow hhigh =>
      obtain ⟨hb1, hb2⟩ := hb
      obtain ⟨hc1, hc2⟩ := hc
      obtain ⟨hd1, hd2⟩ := hd
      refine ⟨Utf8.scalar ((a.toNat - 0xf0) * 262144 + (b.toNat - 0x80) * 4096 +
        (c.toNat - 0x80) * 64 + (d.toNat - 0x80)) (by unfold Nat.isValidChar; omega), ?_⟩
      rw [encode_scalar, encodeNat, if_neg (by omega), if_neg (by omega), if_neg (by omega), ofNat_eq (a := a) (by omega),
        ofNat_eq (a := b) (by omega), ofNat_eq (a := c) (by omega), ofNat_eq (a := d) (by omega)]

/-- The number that the bytes of one sequence spell. -/
def number : List UInt8 → Nat
  | [a] => a.toNat
  | [a, b] => (a.toNat - 0xc0) * 64 + (b.toNat - 0x80)
  | [a, b, c] => (a.toNat - 0xe0) * 4096 + (b.toNat - 0x80) * 64 + (c.toNat - 0x80)
  | [a, b, c, d] =>
    (a.toNat - 0xf0) * 262144 + (b.toNat - 0x80) * 4096 + (c.toNat - 0x80) * 64 + (d.toNat - 0x80)
  | _ => 0

theorem number_encodeNat {v : Nat} (h : v < 0x110000) : number (encodeNat v) = v := by
  unfold encodeNat number
  by_cases h1 : v ≤ 0x7f
  · rw [if_pos h1]
    exact toNat_ofNat (by omega)
  by_cases h2 : v ≤ 0x7ff
  · rw [if_neg h1, if_pos h2]
    simp (disch := omega) only [toNat_ofNat, Nat.add_sub_cancel]
    omega
  by_cases h3 : v ≤ 0xffff
  · rw [if_neg h1, if_neg h2, if_pos h3]
    simp (disch := omega) only [toNat_ofNat, Nat.add_sub_cancel]
    omega
  · rw [if_neg h1, if_neg h2, if_neg h3]
    simp (disch := omega) only [toNat_ofNat, Nat.add_sub_cancel]
    omega

/-- The length of a sequence shows in its first byte. -/
def firstLength (n : Nat) : Nat :=
  if n < 0x80 then 1 else if n < 0xe0 then 2 else if n < 0xf0 then 3 else 4

theorem Sequence.length {a : UInt8} {b : List UInt8} (h : Sequence (a :: b)) :
    (a :: b).length = firstLength a.toNat := by
  unfold firstLength
  cases h <;> simp only [List.length_cons, List.length_nil] <;> split_ifs <;> omega

/-- A byte below 128 is a sequence of its own. -/
theorem Sequence.ascii {s : List UInt8} {b : UInt8} (h : Sequence s) (hb : b ∈ s)
    (hlt : b.toNat < 0x80) : s = [b] := by
  cases h with
  | one _ => rw [List.mem_singleton.mp hb]
  | two h1 _ h2 =>
      obtain ⟨h2, -⟩ := h2
      simp only [List.mem_cons, List.not_mem_nil, or_false] at hb
      rcases hb with rfl | rfl <;> omega
  | three h1 _ h2 h3 =>
      obtain ⟨h2, -⟩ := h2
      obtain ⟨h3, -⟩ := h3
      simp only [List.mem_cons, List.not_mem_nil, or_false] at hb
      rcases hb with rfl | rfl | rfl <;> omega
  | four h1 _ h2 h3 h4 =>
      obtain ⟨h2, -⟩ := h2
      obtain ⟨h3, -⟩ := h3
      obtain ⟨h4, -⟩ := h4
      simp only [List.mem_cons, List.not_mem_nil, or_false] at hb
      rcases hb with rfl | rfl | rfl | rfl <;> omega

theorem encode_singleton {c : Char} {b : UInt8} (h : encode c = [b]) : c.val.toNat = b.toNat := by
  rw [encode_eq] at h
  generalize c.val.toNat = v at h
  unfold encodeNat at h
  split_ifs at h with h1
  · obtain rfl := List.singleton_inj.mp h
    exact (toNat_ofNat (by omega)).symm
  all_goals simp at h

theorem encode_of_lt {c : Char} (h : c.val.toNat < 0x80) :
    encode c = [UInt8.ofNat c.val.toNat] := by
  rw [encode_eq, encodeNat, if_pos (by omega)]

theorem encode_ne_nil (c : Char) : encode c ≠ [] := String.utf8EncodeChar_ne_nil

/-- No sequence is a proper prefix of another. -/
theorem Sequence.prefix_eq {a b : List UInt8} (ha : Sequence a) (hb : Sequence b) (h : a <+: b) :
    a = b := by
  cases a with
  | nil => cases ha
  | cons x a =>
      cases b with
      | nil => simp at h
      | cons y b =>
          obtain ⟨rfl, _⟩ := List.cons_prefix_cons.mp h
          exact h.eq_of_length (by rw [ha.length, hb.length])

/-! ## Repair of byte strings -/

instance (b : List UInt8) : Decidable (Sequence b) :=
  match b with
  | [a] => decidable_of_iff (a.toNat < 0x80) ⟨.one, fun h => by cases h; assumption⟩
  | [a, b] =>
    decidable_of_iff (0xc2 ≤ a.toNat ∧ a.toNat ≤ 0xdf ∧ 0x80 ≤ b.toNat ∧ b.toNat ≤ 0xbf)
      ⟨fun ⟨h1, h2, hb⟩ => .two h1 h2 hb, fun h => by cases h with | two h1 h2 hb => exact ⟨h1, h2, hb⟩⟩
  | [a, b, c] =>
    decidable_of_iff ((0xe0 ≤ a.toNat ∧ a.toNat ≤ 0xef) ∧ (0x80 ≤ b.toNat ∧ b.toNat ≤ 0xbf) ∧
        (0x80 ≤ c.toNat ∧ c.toNat ≤ 0xbf) ∧ ¬ (a.toNat = 0xe0 ∧ b.toNat < 0xa0) ∧
          ¬ (a.toNat = 0xed ∧ 0xa0 ≤ b.toNat))
      ⟨fun ⟨⟨h1, h2⟩, hb, hc, h3, h4⟩ => .three h1 h2 hb hc h3 h4, fun h => by
        cases h with | three h1 h2 hb hc h3 h4 => exact ⟨⟨h1, h2⟩, hb, hc, h3, h4⟩⟩
  | [a, b, c, d] =>
    decidable_of_iff ((0xf0 ≤ a.toNat ∧ a.toNat ≤ 0xf4) ∧ (0x80 ≤ b.toNat ∧ b.toNat ≤ 0xbf) ∧
        (0x80 ≤ c.toNat ∧ c.toNat ≤ 0xbf) ∧ (0x80 ≤ d.toNat ∧ d.toNat ≤ 0xbf) ∧
          ¬ (a.toNat = 0xf0 ∧ b.toNat < 0x90) ∧ ¬ (a.toNat = 0xf4 ∧ 0x90 ≤ b.toNat))
      ⟨fun ⟨⟨h1, h2⟩, hb, hc, hd, h3, h4⟩ => .four h1 h2 hb hc hd h3 h4, fun h => by
        cases h with | four h1 h2 hb hc hd h3 h4 => exact ⟨⟨h1, h2⟩, hb, hc, hd, h3, h4⟩⟩
  | [] => isFalse fun h => by cases h
  | _ :: _ :: _ :: _ :: _ :: _ => isFalse fun h => by cases h

/-- The sequence that the byte string starts with, if it starts with one. -/
def sequenceAt (b : List UInt8) : Option (List UInt8) :=
  ([1, 2, 3, 4].map b.take).find? fun s => decide (Sequence s)

/-- Bytes of a sequence under way are copied; of what follows, a sequence stands for itself and
any other byte for the character of its number. -/
def repairFrom : Nat → List UInt8 → List UInt8
  | _, [] => []
  | inside + 1, c :: t => c :: repairFrom inside t
  | 0, c :: t =>
    match sequenceAt (c :: t) with
    | some s => c :: repairFrom (s.length - 1) t
    | none => encodeNat c.toNat ++ repairFrom 0 t

def repair (b : List UInt8) : List UInt8 := repairFrom 0 b

theorem Sequence.length_mem {s : List UInt8} (h : Sequence s) : s.length ∈ [1, 2, 3, 4] := by
  cases h <;> simp

theorem sequenceAt_eq {b s : List UInt8} : sequenceAt b = some s ↔ Sequence s ∧ s <+: b := by
  constructor
  · intro h
    obtain ⟨n, -, rfl⟩ := List.mem_map.mp (List.mem_of_find?_eq_some h)
    exact ⟨of_decide_eq_true (List.find?_some (p := fun s => decide (Sequence s)) h),
      List.take_prefix n b⟩
  · rintro ⟨hs, hle⟩
    have hmem : s ∈ [1, 2, 3, 4].map b.take :=
      List.mem_map.mpr ⟨s.length, hs.length_mem, (List.prefix_iff_eq_take.mp hle).symm⟩
    cases h : sequenceAt b with
    | none => exact absurd (decide_eq_true hs) (List.find?_eq_none.mp h s hmem)
    | some s' =>
      obtain ⟨n, -, rfl⟩ := List.mem_map.mp (List.mem_of_find?_eq_some h)
      have hs' := of_decide_eq_true (List.find?_some (p := fun s => decide (Sequence s)) h)
      rcases List.prefix_or_prefix_of_prefix (List.take_prefix n b) hle with hle' | hle'
      · rw [hs'.prefix_eq hs hle']
      · rw [hs.prefix_eq hs' hle']

theorem repairFrom_length (s t : List UInt8) : repairFrom s.length (s ++ t) = s ++ repairFrom 0 t := by
  induction s with
  | nil => rfl
  | cons c s ih => rw [List.length_cons, List.cons_append, repairFrom, ih, List.cons_append]

@[simp] theorem repair_nil : repair [] = [] := rfl

theorem repair_sequence {s : List UInt8} (h : Sequence s) (t : List UInt8) :
    repair (s ++ t) = s ++ repair t := by
  have hat := sequenceAt_eq.mpr ⟨h, List.prefix_append s t⟩
  cases s with
  | nil => cases h
  | cons c s =>
    rw [List.cons_append] at hat ⊢
    rw [repair, repairFrom, hat]
    exact congrArg (List.cons c) (repairFrom_length s t)

theorem repair_byte {c : UInt8} {t : List UInt8} (h : sequenceAt (c :: t) = none) :
    repair (c :: t) = encodeNat c.toNat ++ repair t := by
  rw [repair, repairFrom, h]
  rfl

/-- A scan from left to right: a sequence or a single byte at a time. -/
theorem scan_induction {motive : List UInt8 → Prop} (nil : motive [])
    (sequence : ∀ s t, Sequence s → motive t → motive (s ++ t))
    (byte : ∀ c t, sequenceAt (c :: t) = none → motive t → motive (c :: t)) (b : List UInt8) :
    motive b := by
  induction h : b.length using Nat.strong_induction_on generalizing b with
  | _ n ih =>
    cases b with
    | nil => exact nil
    | cons c t =>
      cases hat : sequenceAt (c :: t) with
      | none => exact byte c t hat (ih t.length (by rw [← h]; simp) t rfl)
      | some s =>
        obtain ⟨hs, u, hu⟩ := sequenceAt_eq.mp hat
        rw [← hu]
        refine sequence s u hs (ih u.length ?_ u rfl)
        have hpos := hs.length_mem
        rw [← h, ← hu, List.length_append]
        simp only [List.mem_cons, List.not_mem_nil, or_false] at hpos
        omega

/-- A byte as the scalar value of that number. -/
def latin (c : UInt8) : Char := scalar c.toNat (.inl (by have := c.toNat_lt; omega))

theorem encode_latin (c : UInt8) : encode (latin c) = encodeNat c.toNat := rfl

theorem wellFormed_repair (b : List UInt8) : WellFormed (repair b) := by
  induction b using scan_induction with
  | nil => exact wellFormed_nil
  | sequence s t hs ih =>
    obtain ⟨c, rfl⟩ := hs.scalar
    rw [repair_sequence hs]
    exact (wellFormed_encode c).append ih
  | byte c t h ih =>
    rw [repair_byte h, ← encode_latin]
    exact (wellFormed_encode _).append ih

theorem repair_wellFormed {b : List UInt8} (h : WellFormed b) : repair b = b := by
  obtain ⟨cs, rfl⟩ := h
  induction cs with
  | nil => rfl
  | cons c cs ih => rw [encodeAll_cons, repair_sequence (sequence_encode c), ih]

theorem repair_eq_iff {b : List UInt8} : repair b = b ↔ WellFormed b :=
  ⟨fun h => h ▸ wellFormed_repair b, repair_wellFormed⟩

end WebHtop.Lib.Utf8
