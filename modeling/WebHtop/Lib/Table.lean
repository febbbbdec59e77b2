import Mathlib.Algebra.BigOperators.Group.List.Basic
import Mathlib.Data.Int.Log
import Mathlib.Data.List.Induction
import Mathlib.Data.List.Nodup
import Mathlib.Data.List.SplitBy
import Mathlib.Data.Nat.Digits.Lemmas
import Mathlib.Data.Rat.Floor
import Mathlib.Tactic.FieldSimp
import Mathlib.Tactic.Linarith
import Mathlib.Tactic.Positivity

/-!
# Finite tables with distinct keys

An association list seen as a finite map in an unspecified iteration order, with
the total of a measure over its entries. The totals are the point: a running sum
that is kept by hand must move exactly as `total_set` and `total_erase` say.
-/

namespace WebHtop.Lib

universe u v

abbrev Table (κ : Type u) (ν : Type v) := List (κ × ν)

namespace Table

variable {κ : Type u} {ν : Type v} [DecidableEq κ]

def keys (t : Table κ ν) : List κ := t.map Prod.fst

def get (t : Table κ ν) (k : κ) : Option ν :=
  match t with
  | [] => none
  | (k', v) :: t => if k' = k then some v else get t k

/-- Replace the value at a key that is present. -/
def set (t : Table κ ν) (k : κ) (v : ν) : Table κ ν :=
  t.map fun e => if e.1 = k then (k, v) else e

def erase (t : Table κ ν) (k : κ) : Table κ ν := t.filter fun e => e.1 ≠ k

/-- `t[k] = v`, whether the key is there or not. -/
def assign (t : Table κ ν) (k : κ) (v : ν) : Table κ ν := (k, v) :: t.erase k

/-- Assignments in a row. -/
def assignAll (t : Table κ ν) (rows : List (κ × ν)) : Table κ ν :=
  rows.foldl (fun t e => t.assign e.1 e.2) t

/-- A duplicate-free list is a sublist of it and what is missing there. -/
theorem length_missing {α : Type u} [DecidableEq α] {l l' : List α} (hn : l.Nodup)
    (hs : l'.Sublist l) : (l.filter fun a => a ∉ l').length + l'.length = l.length := by
  have hkept : (l.filter fun a => a ∈ l').Perm l' := by
    refine (List.perm_ext_iff_of_nodup (hn.filter _) (hn.sublist hs)).mpr fun a => ?_
    simpa using fun ha => hs.subset ha
  have hsplit := List.length_eq_length_filter_add (l := l) fun a => decide (a ∈ l')
  rw [hkept.length_eq] at hsplit
  simp only [decide_not]
  omega

/-- The sum of a measure over the entries. -/
def total (f : ν → Nat) (t : Table κ ν) : Nat := (t.map fun e => f e.2).sum

variable {t : Table κ ν} {k k' : κ} {v v' : ν} {f : ν → Nat}

omit [DecidableEq κ] in
@[simp] theorem total_nil : total f ([] : Table κ ν) = 0 := rfl

omit [DecidableEq κ] in
@[simp] theorem total_cons (e : κ × ν) (t : Table κ ν) : total f (e :: t) = f e.2 + total f t := by
  simp [total]

omit [DecidableEq κ] in
theorem total_append (t t' : Table κ ν) : total f (t ++ t') = total f t + total f t' := by
  simp [total]

theorem mem_of_get (h : t.get k = some v) : (k, v) ∈ t := by
  induction t with
  | nil => simp [get] at h
  | cons e t ih =>
      obtain ⟨k', w⟩ := e
      by_cases hk : k' = k
      · simp only [get, hk, ↓reduceIte, Option.some.injEq] at h
        simp [hk, h]
      · simp only [get, hk, ↓reduceIte] at h
        exact List.mem_cons_of_mem _ (ih h)

theorem get_of_mem (hn : t.keys.Nodup) (h : (k, v) ∈ t) : t.get k = some v := by
  induction t with
  | nil => simp at h
  | cons e t ih =>
      obtain ⟨k', w⟩ := e
      simp only [keys, List.map_cons, List.nodup_cons] at hn
      rcases List.mem_cons.mp h with he | hm
      · obtain ⟨rfl, rfl⟩ := Prod.mk.inj he
        simp [get]
      · have hne : k' ≠ k := fun he => hn.1 (he ▸ List.mem_map_of_mem (f := Prod.fst) hm)
        simpa [get, hne] using ih hn.2 hm

theorem get_eq_none : t.get k = none ↔ k ∉ t.keys := by
  induction t with
  | nil => exact ⟨fun _ h => (nomatch h), fun _ => rfl⟩
  | cons e t ih =>
    obtain ⟨k', v⟩ := e
    rw [get, keys, List.map_cons, List.mem_cons, not_or]
    by_cases h : k' = k
    · rw [if_pos h]
      exact ⟨fun h => (nomatch h), fun hk => absurd h.symm hk.1⟩
    · rw [if_neg h, ih]
      exact ⟨fun ht => ⟨fun hk => h hk.symm, ht⟩, And.right⟩

theorem get_perm {t' : Table κ ν} (hn : t.keys.Nodup) (h : t.Perm t') : t'.get k = t.get k := by
  have hn' : t'.keys.Nodup := (h.map Prod.fst).nodup_iff.mp hn
  cases hget : t.get k with
  | some v => exact get_of_mem hn' (h.mem_iff.mp (mem_of_get hget))
  | none =>
    cases hget' : t'.get k with
    | none => rfl
    | some v =>
      rw [get_of_mem hn (h.mem_iff.mpr (mem_of_get hget'))] at hget
      cases hget

@[simp] theorem keys_set : (t.set k v).keys = t.keys := by
  induction t with
  | nil => rfl
  | cons e t ih =>
      simp only [set, keys, List.map_cons, List.map_map] at ih ⊢
      rw [ih]
      by_cases hk : e.1 = k <;> simp [hk]

omit [DecidableEq κ] in
theorem length_keys (t : Table κ ν) : t.keys.length = t.length := List.length_map _

omit [DecidableEq κ] in
theorem keys_append (t t' : Table κ ν) : keys (t ++ t') = t.keys ++ t'.keys :=
  List.map_append

theorem mem_keys_erase {a : κ} : a ∈ (t.erase k).keys ↔ a ∈ t.keys ∧ a ≠ k := by
  constructor
  · intro h
    obtain ⟨e, he, rfl⟩ := List.mem_map.mp h
    obtain ⟨hm, hne⟩ := List.mem_filter.mp he
    exact ⟨List.mem_map_of_mem hm, of_decide_eq_true hne⟩
  · rintro ⟨h, hne⟩
    obtain ⟨e, he, rfl⟩ := List.mem_map.mp h
    exact List.mem_map_of_mem (List.mem_filter.mpr ⟨he, decide_eq_true hne⟩)

theorem keys_erase_sublist : (t.erase k).keys.Sublist t.keys := List.filter_sublist.map _

theorem mem_set_iff (hk : k ∈ t.keys) {e : κ × ν} :
    e ∈ t.set k v ↔ e = (k, v) ∨ e ∈ t ∧ e.1 ≠ k := by
  constructor
  · intro h
    obtain ⟨e', he', rfl⟩ := List.mem_map.mp h
    by_cases hk' : e'.1 = k
    · simp [hk']
    · simp [hk', he']
  · rintro (rfl | ⟨hm, hne⟩)
    · obtain ⟨e', he', hk'⟩ := List.mem_map.mp hk
      exact List.mem_map.mpr ⟨e', he', by simp [hk']⟩
    · exact List.mem_map.mpr ⟨e, hm, by simp [hne]⟩

theorem mem_erase_iff {e : κ × ν} : e ∈ t.erase k ↔ e ∈ t ∧ e.1 ≠ k := by
  simp [erase, List.mem_filter]

@[simp] theorem get_set_self (hk : k ∈ t.keys) : (t.set k v).get k = some v := by
  induction t with
  | nil => simp [keys] at hk
  | cons e t ih =>
      by_cases he : e.1 = k
      · simp [set, get, he]
      · have hk' : k ∈ keys t := by
          rcases List.mem_cons.mp hk with h | h
          · exact absurd h.symm he
          · exact h
        have := ih hk'
        simpa [set, get, he] using this

theorem mem_keys_of_get (h : t.get k = some v) : k ∈ t.keys :=
  List.mem_map.mpr ⟨_, mem_of_get h, rfl⟩

omit [DecidableEq κ] in
theorem total_perm {t' : Table κ ν} (h : t.Perm t') : total f t = total f t' :=
  (h.map _).sum_eq

theorem set_of_not_mem (h : k ∉ t.keys) : t.set k v = t := by
  induction t with
  | nil => rfl
  | cons e t ih =>
      simp only [keys, List.map_cons, List.mem_cons, not_or] at h
      have hne : e.1 ≠ k := fun he => h.1 he.symm
      have := ih h.2
      simp only [set, List.map_cons, hne, ↓reduceIte] at this ⊢
      rw [this]

theorem erase_of_not_mem (h : k ∉ t.keys) : t.erase k = t := by
  refine List.filter_eq_self.mpr fun e he => ?_
  have : e.1 ≠ k := fun hk => h (hk ▸ List.mem_map_of_mem (f := Prod.fst) he)
  simpa using this

theorem erase_set (t : Table κ ν) (k : κ) (v : ν) : (t.set k v).erase k = t.erase k := by
  induction t with
  | nil => rfl
  | cons e t ih =>
      by_cases hk : e.1 = k
      · simpa [set, erase, hk] using ih
      · simpa [set, erase, hk] using ih

/-- Entries kept or dropped by their keys. -/
theorem get_filter (p : κ → Bool) (t : Table κ ν) (k : κ) :
    Table.get (t.filter fun e => p e.1) k = if p k then t.get k else none := by
  induction t with
  | nil => simp [get]
  | cons e t ih =>
      obtain ⟨key, v⟩ := e
      rw [List.filter_cons]
      by_cases hk : key = k
      · subst hk
        cases hp : p key with
        | true => simp [get]
        | false => simpa [hp] using ih
      · cases hp : p key with
        | true => simp only [↓reduceIte, get, if_neg hk, ih]
        | false => simp only [Bool.false_eq_true, ↓reduceIte, get, if_neg hk, ih]

theorem get_erase (t : Table κ ν) (k k' : κ) :
    (t.erase k).get k' = if k' = k then none else t.get k' := by
  rw [erase, get_filter (fun key => key ≠ k)]
  by_cases hk : k' = k
  · simp [hk]
  · simp [hk]

theorem get_assign (t : Table κ ν) (k : κ) (v : ν) (k' : κ) :
    (t.assign k v).get k' = if k' = k then some v else t.get k' := by
  rw [assign, get, get_erase]
  by_cases hk : k' = k
  · rw [if_pos hk.symm, if_pos hk]
  · rw [if_neg (Ne.symm hk), if_neg hk, if_neg hk]

@[simp] theorem assignAll_nil : t.assignAll [] = t := rfl

@[simp] theorem assignAll_cons (e : κ × ν) (rows : List (κ × ν)) :
    t.assignAll (e :: rows) = (t.assign e.1 e.2).assignAll rows := rfl

/-- After assignments to distinct keys, a key has the value assigned to it, or its old one. -/
theorem get_assignAll {rows : List (κ × ν)} (hn : (rows.map Prod.fst).Nodup) :
    (t.assignAll rows).get k = some v ↔
      (k, v) ∈ rows ∨ k ∉ rows.map Prod.fst ∧ t.get k = some v := by
  induction rows generalizing t with
  | nil => simp [assignAll]
  | cons e rows ih =>
      obtain ⟨key, w⟩ := e
      rw [List.map_cons, List.nodup_cons] at hn
      rw [assignAll_cons, ih hn.2, get_assign, List.map_cons, List.mem_cons, List.mem_cons, Prod.mk.injEq]
      rcases eq_or_ne k key with rfl | hk
      · have hnot : (k, v) ∉ rows := fun hm => hn.1 (List.mem_map.mpr ⟨_, hm, rfl⟩)
        simp only [hnot, hn.1, ↓reduceIte, Option.some.injEq, not_false_eq_true, true_and,
          not_true_eq_false, false_and, or_false, false_or]
        exact eq_comm
      · simp only [hk, ↓reduceIte, false_and, false_or]

theorem get_assignAll_nil {rows : List (κ × ν)} (hn : (rows.map Prod.fst).Nodup) :
    (assignAll [] rows).get k = some v ↔ (k, v) ∈ rows := by
  rw [get_assignAll hn, get]
  simp

/-- Changing one entry moves the total by the change of that entry. -/
theorem total_set (hn : t.keys.Nodup) (h : t.get k = some v) :
    total f (t.set k v') + f v = total f t + f v' := by
  induction t with
  | nil => simp [get] at h
  | cons e t ih =>
      obtain ⟨k', w⟩ := e
      simp only [keys, List.map_cons, List.nodup_cons] at hn
      by_cases hk : k' = k
      · simp only [get, hk, ↓reduceIte, Option.some.injEq] at h
        have hs : set t k v' = t := set_of_not_mem (hk ▸ hn.1)
        have hc : set ((k', w) :: t) k v' = (k, v') :: set t k v' := by simp [set, hk]
        rw [hc, hs, total_cons, total_cons, h]
        simp only
        omega
      · simp only [get, hk, ↓reduceIte] at h
        have hc : set ((k', w) :: t) k v' = (k', w) :: set t k v' := by simp [set, hk]
        have := ih hn.2 h
        rw [hc, total_cons, total_cons]
        omega

/-- Erasing an entry takes exactly its share off the total. -/
theorem total_erase (hn : t.keys.Nodup) (h : t.get k = some v) :
    total f (t.erase k) + f v = total f t := by
  induction t with
  | nil => simp [get] at h
  | cons e t ih =>
      obtain ⟨k', w⟩ := e
      simp only [keys, List.map_cons, List.nodup_cons] at hn
      by_cases hk : k' = k
      · simp only [get, hk, ↓reduceIte, Option.some.injEq] at h
        have hs : erase t k = t := erase_of_not_mem (hk ▸ hn.1)
        have hc : erase ((k', w) :: t) k = erase t k := by simp [erase, hk]
        rw [hc, hs, total_cons, h]
        simp only
        omega
      · simp only [get, hk, ↓reduceIte] at h
        have hc : erase ((k', w) :: t) k = (k', w) :: erase t k := by simp [erase, hk]
        have := ih hn.2 h
        rw [hc, total_cons, total_cons]
        omega

theorem le_total (h : t.get k = some v) : f v ≤ total f t := by
  induction t with
  | nil => simp [get] at h
  | cons e t ih =>
      rw [total_cons]
      by_cases hk : e.1 = k
      · simp only [get, hk, ↓reduceIte, Option.some.injEq] at h
        rw [h]
        omega
      · simp only [get, hk, ↓reduceIte] at h
        have := ih h
        omega

end Table
end WebHtop.Lib
