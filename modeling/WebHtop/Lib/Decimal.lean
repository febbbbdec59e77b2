import Mathlib.Algebra.BigOperators.Group.List.Basic
import Mathlib.Data.Int.Log
import Mathlib.Data.List.Induction
import Mathlib.Data.List.Nodup
import Mathlib.Data.List.SplitBy
import Mathlib.Data.Nat.Digits.Lemmas
import Mathlib.Data.Rat.Floor
import Mathlib.Tactic.FieldSimp
import Mathlib.Tactic.Linarith
import Mathlib.Tactic.Positivity

/-!
# Decimal numerals

Numerals as byte strings: their value, and the numeral of a number, without leading
zeros. Reading what was written gives the number back.
-/

namespace WebHtop.Lib.Decimal

def isDigit (c : UInt8) : Bool := 48 ≤ c.toNat && c.toNat ≤ 57

def digitValue (c : UInt8) : Nat := c.toNat - 48

/-- The number a numeral writes. -/
def value (t : List UInt8) : Nat := t.foldl (fun n c => n * 10 + digitValue c) 0

/-- The numeral of a number. -/
def numeral (n : Nat) : List UInt8 :=
  if n = 0 then [48] else (Nat.digits 10 n).reverse.map fun d => UInt8.ofNat (d + 48)

theorem digit_ofNat {d : Nat} (h : d < 10) :
    isDigit (UInt8.ofNat (d + 48)) = true ∧ digitValue (UInt8.ofNat (d + 48)) = d := by
  have hn : (UInt8.ofNat (d + 48)).toNat = d + 48 := by
    rw [UInt8.toNat_ofNat']
    exact Nat.mod_eq_of_lt (by omega)
  constructor
  · simp only [isDigit, hn, Bool.and_eq_true, decide_eq_true_eq]
    omega
  · simp only [digitValue, hn]
    omega

theorem value_snoc (t : List UInt8) (c : UInt8) : value (t ++ [c]) = value t * 10 + digitValue c := by
  simp [value]

theorem value_digits (l : List Nat) (h : ∀ d ∈ l, d < 10) :
    value (l.reverse.map fun d => UInt8.ofNat (d + 48)) = Nat.ofDigits 10 l := by
  induction l with
  | nil => rfl
  | cons d l ih =>
      rw [List.reverse_cons, List.map_append, List.map_singleton, value_snoc,
        ih fun e he => h e (List.mem_cons_of_mem d he), (digit_ofNat (h d List.mem_cons_self)).2,
        Nat.ofDigits_cons]
      omega

@[simp] theorem value_numeral (n : Nat) : value (numeral n) = n := by
  unfold numeral
  split
  · rename_i h
    rw [h]
    rfl
  · rw [value_digits _ fun d hd => Nat.digits_lt_base (by decide) hd]
    exact Nat.ofDigits_digits 10 n

theorem isDigit_numeral {n : Nat} {c : UInt8} (h : c ∈ numeral n) : isDigit c = true := by
  unfold numeral at h
  split at h
  · obtain rfl := List.mem_singleton.mp h
    rfl
  · obtain ⟨d, hd, rfl⟩ := List.mem_map.mp h
    exact (digit_ofNat (Nat.digits_lt_base (by decide) (List.mem_reverse.mp hd))).1

theorem length_numeral_le {n k : Nat} (hk : 0 < k) (h : n < 10 ^ k) : (numeral n).length ≤ k := by
  unfold numeral
  split
  · exact hk
  · rw [List.length_map, List.length_reverse]
    exact (Nat.digits_length_le_iff (by decide) n).mpr h

/-- A numeral is `0`, or starts with a digit other than `0`. -/
theorem numeral_cases (n : Nat) : numeral n = [48] ∨
    ∃ c t, numeral n = c :: t ∧ isDigit c = true ∧ c ≠ 48 ∧ ∀ d ∈ t, isDigit d = true := by
  by_cases hn : n = 0
  · left
    rw [numeral, if_pos hn]
  · right
    have hne : Nat.digits 10 n ≠ [] := Nat.digits_ne_nil_iff_ne_zero.mpr hn
    have hlast := Nat.getLast_digit_ne_zero 10 hn
    have hlt := Nat.digits_lt_base (b := 10) (m := n) (by decide) (List.getLast_mem hne)
    have hsplit := List.dropLast_append_getLast hne
    generalize (Nat.digits 10 n).getLast hne = last at hlast hlt hsplit
    obtain ⟨hdig, hval⟩ := digit_ofNat hlt
    refine ⟨UInt8.ofNat (last + 48), (Nat.digits 10 n).dropLast.reverse.map
      fun d => UInt8.ofNat (d + 48), ?_, hdig, ?_, ?_⟩
    · conv_lhs => rw [numeral, if_neg hn, ← hsplit]
      simp
    · intro he
      rw [he] at hval
      exact hlast hval.symm
    · intro d hd
      obtain ⟨e, he, rfl⟩ := List.mem_map.mp hd
      have hmem := List.dropLast_subset _ (List.mem_reverse.mp he)
      exact (digit_ofNat (Nat.digits_lt_base (by decide) hmem)).1

theorem numeral_ne_nil (n : Nat) : numeral n ≠ [] := by
  rcases numeral_cases n with h | ⟨c, t, h, -⟩ <;> simp [h]

theorem digitValue_eq_zero {c : UInt8} (h : isDigit c = true) : digitValue c = 0 ↔ c = 48 := by
  simp only [isDigit, Bool.and_eq_true, decide_eq_true_eq] at h
  rw [digitValue, ← UInt8.toNat_inj]
  show c.toNat - 48 = 0 ↔ c.toNat = 48
  omega

/-- A numeral writes zero when all its digits are zero. -/
theorem value_eq_zero_iff {t : List UInt8} (h : ∀ c ∈ t, isDigit c = true) :
    value t = 0 ↔ ∀ c ∈ t, c = 48 := by
  induction t using List.reverseRecOn with
  | nil => simp [value]
  | append_singleton t c ih =>
    have hc : isDigit c = true := h c (by simp)
    have ht : ∀ d ∈ t, isDigit d = true := fun d hd => h d (List.mem_append_left _ hd)
    rw [value_snoc, Nat.add_eq_zero_iff, digitValue_eq_zero hc]
    simp only [List.mem_append, List.mem_singleton, or_imp, forall_and, forall_eq, ← ih ht]
    exact and_congr_left fun _ => by omega

end WebHtop.Lib.Decimal
