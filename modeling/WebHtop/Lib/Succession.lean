import Mathlib.Algebra.BigOperators.Group.List.Basic
import Mathlib.Data.Int.Log
import Mathlib.Data.List.Induction
import Mathlib.Data.List.Nodup
import Mathlib.Data.List.SplitBy
import Mathlib.Data.Nat.Digits.Lemmas
import Mathlib.Data.Rat.Floor
import Mathlib.Tactic.FieldSimp
import Mathlib.Tactic.Linarith
import Mathlib.Tactic.Positivity

/-!
# Rising records

A history of records with a key and a number, cut into its stretches of one key. A consumer keeps
a record when no record of the same stretch that it has kept has the same or a higher number. The
numbers that the kept records of a stretch leave out can be counted one record at a time.
-/

namespace WebHtop.Lib.Succession

variable {α κ : Type} [DecidableEq κ] (key : α → κ) (seq : α → Nat) (kept : α → Bool)

/-- The maximal stretches of records with one key. -/
def stretches (l : List α) : List (List α) := l.splitBy fun a b => key a == key b

/-- What may be said of a stretch: the kept numbers rise, and exactly the records that would break
the rise are left out. -/
structure Rising (stretch : List α) : Prop where
  rises : (stretch.filter kept).Pairwise fun a b => seq a < seq b
  dropped : ∀ before a after, stretch = before ++ a :: after →
    (kept a = false ↔ ∃ last ∈ (before.filter kept).getLast?, seq a ≤ seq last)

/-- The numbers between the first and the last record that no record has. -/
def missing (l : List α) : Nat :=
  match l.head?, l.getLast? with
  | some first, some last => seq last - seq first + 1 - l.length
  | _, _ => 0

/-- The record that is kept next continues the stretch, or starts one. -/
def Follows (l : List α) (a : α) : Prop :=
  kept a = true ↔ ∀ last ∈ (l.filter kept).getLast?, key last = key a → seq last < seq a

/-- The numbers that a record leaves out behind the one kept before it. -/
def gap (l : List α) (a : α) : Nat :=
  match (l.filter kept).getLast? with
  | some last => if kept a = true ∧ key last = key a then seq a - seq last - 1 else 0
  | none => 0

variable {key seq kept}

/-! ## Stretches -/

variable (key) in
theorem stretches_flatten (l : List α) : (stretches key l).flatten = l := List.flatten_splitBy _ l

theorem stretches_key {l stretch : List α} (h : stretch ∈ stretches key l) {a b : α}
    (ha : a ∈ stretch) (hb : b ∈ stretch) : key a = key b := by
  have hchain : stretch.IsChain fun x y => key x = key y :=
    (List.isChain_of_mem_splitBy h).imp fun x y hxy => beq_iff_eq.mp hxy
  have htrans : IsTrans α fun x y => key x = key y := ⟨fun _ _ _ => Eq.trans⟩
  have hsymm : Std.Symm fun x y => key x = key y := ⟨fun _ _ => Eq.symm⟩
  have hpairwise : stretch.Pairwise fun x y => key x = key y := List.isChain_iff_pairwise.mp hchain
  exact List.Pairwise.forall_of_forall (R := fun x y => key x = key y) (fun _ _ => rfl)
    hpairwise ha hb

/-- A record of the same key joins the last stretch. -/
theorem stretches_join {l : List α} {a b : α} (hb : b ∈ l.getLast?) (hkey : key b = key a) :
    ∃ front last, stretches key l = front ++ [last] ∧ b ∈ last.getLast? ∧
      stretches key (l ++ [a]) = front ++ [last ++ [a]] := by
  have hl : l ≠ [] := by
    rintro rfl
    cases hb
  have hne : stretches key l ≠ [] := List.splitBy_ne_nil.mpr hl
  obtain ⟨front, last, heq⟩ : ∃ front last, stretches key l = front ++ [last] :=
    ⟨_, _, (List.dropLast_append_getLast hne).symm⟩
  have hflat : front.flatten ++ last = l := by
    rw [← stretches_flatten key l, heq]
    simp
  obtain ⟨-, hnil, hchain, hcut⟩ := List.splitBy_eq_iff.mp heq
  have hlast : last ≠ [] := by
    rintro rfl
    exact hnil (by simp)
  have hb' : b ∈ last.getLast? := by
    rw [← hflat, List.getLast?_append_of_ne_nil _ hlast] at hb
    exact hb
  have hjoined : (last ++ [a]).IsChain fun x y => (key x == key y) = true := by
    rw [List.isChain_append]
    refine ⟨hchain last (by simp), List.isChain_singleton a, fun x hx y hy => ?_⟩
    obtain rfl := Option.mem_unique hx hb'
    obtain rfl : a = y := by simpa using hy
    exact beq_iff_eq.mpr hkey
  refine ⟨front, last, heq, hb', List.splitBy_eq_iff.mpr ⟨?_, ?_, ?_, ?_⟩⟩
  · rw [← hflat]
    simp
  · simp only [List.mem_append, List.mem_singleton] at hnil ⊢
    rintro (h | h)
    · exact hnil (Or.inl h)
    · simp at h
  · intro m hm
    rcases List.mem_append.mp hm with h | h
    · exact hchain m (List.mem_append_left _ h)
    · obtain rfl := List.mem_singleton.mp h
      exact hjoined
  · rw [List.isChain_append] at hcut ⊢
    obtain ⟨hfront, -, hjoint⟩ := hcut
    refine ⟨hfront, List.isChain_singleton _, fun x hx y hy => ?_⟩
    obtain ⟨hx', hy', hneq⟩ := hjoint x hx last (by simp)
    obtain rfl : last ++ [a] = y := by simpa using hy
    refine ⟨hx', by simp, ?_⟩
    rwa [List.head_append_of_ne_nil hlast]

/-- A record of another key starts a stretch. -/
theorem stretches_start {l : List α} {a : α} (h : ∀ b ∈ l.getLast?, key b ≠ key a) :
    stretches key (l ++ [a]) = stretches key l ++ [[a]] :=
  List.splitBy_append_cons [] fun b hb => beq_eq_false_iff_ne.mpr (h b hb)

/-- Records of one key are one stretch. -/
theorem stretches_one {l : List α} (hne : l ≠ []) (h : ∀ a ∈ l, ∀ b ∈ l, key a = key b) :
    stretches key l = [l] := by
  refine List.splitBy_eq_iff.mpr ⟨by simp, by simp [hne.symm], ?_, List.isChain_singleton l⟩
  intro m hm
  obtain rfl := List.mem_singleton.mp hm
  refine List.Pairwise.isChain (List.pairwise_of_forall_mem_list fun a ha b hb => ?_)
  exact beq_iff_eq.mpr (h a ha b hb)

/-! ## One stretch -/

theorem Rising.single {a : α} (ha : kept a = true) : Rising seq kept [a] where
  rises := by simp [ha]
  dropped before b after h := by
    obtain ⟨rfl, rfl, rfl⟩ : before = [] ∧ b = a ∧ after = [] := by
      cases before with
      | nil => simpa [eq_comm] using h
      | cons => simp at h
    simp [ha]

/-- The first record of a stretch is kept. -/
theorem Rising.kept_ne_nil {stretch : List α} (h : Rising seq kept stretch) (hne : stretch ≠ []) :
    stretch.filter kept ≠ [] := by
  obtain ⟨a, rest, rfl⟩ := List.exists_cons_of_ne_nil hne
  have ha : kept a ≠ false := by
    rw [ne_eq, h.dropped [] a rest rfl]
    simp
  rw [List.filter_cons_of_pos (by simpa using ha)]
  exact List.cons_ne_nil _ _

theorem Rising.snoc {stretch : List α} {last a : α} (h : Rising seq kept stretch)
    (hlast : last ∈ (stretch.filter kept).getLast?) (ha : kept a = true ↔ seq last < seq a) :
    Rising seq kept (stretch ++ [a]) where
  rises := by
    rw [List.filter_append, List.pairwise_append]
    refine ⟨h.rises, ?_, fun x hx y hy => ?_⟩
    · by_cases hk : kept a = true <;> simp [hk]
    · obtain ⟨hy, hk⟩ := List.mem_filter.mp hy
      obtain rfl := List.mem_singleton.mp hy
      have hlt : seq last < seq y := ha.mp hk
      obtain ⟨front, hfront⟩ := List.getLast?_eq_some_iff.mp hlast
      rw [hfront, List.mem_append, List.mem_singleton] at hx
      rcases hx with hx | rfl
      · have hrises := h.rises
        rw [hfront, List.pairwise_append] at hrises
        exact lt_trans (hrises.2.2 x hx last List.mem_cons_self) hlt
      · exact hlt
  dropped before b after heq := by
    rcases List.eq_nil_or_concat after with rfl | ⟨rest, c, rfl⟩
    · obtain ⟨rfl, hb⟩ := List.append_inj' heq rfl
      obtain rfl : a = b := by simpa using hb
      rw [← Bool.not_eq_true, ha, not_lt]
      constructor
      · exact fun hle => ⟨last, hlast, hle⟩
      · rintro ⟨last', hlast', hle⟩
        rwa [Option.mem_unique hlast hlast']
    · have hfront : stretch ++ [a] = (before ++ b :: rest) ++ [c] := by simpa using heq
      exact h.dropped before b rest (List.append_inj' hfront rfl).1

/-! ## Missing numbers -/

/-- Rising numbers are at most as many as the range has, so no subtraction in `missing` is cut
off at zero. -/
theorem length_le_of_rises {l : List α} (h : l.Pairwise fun a b => seq a < seq b) {first last : α}
    (hfirst : first ∈ l.head?) (hlast : last ∈ l.getLast?) :
    seq first ≤ seq last ∧ l.length ≤ seq last - seq first + 1 := by
  induction l generalizing first with
  | nil => cases hfirst
  | cons a l ih =>
    obtain rfl : a = first := by simpa using hfirst
    cases l with
    | nil =>
      obtain rfl : a = last := by simpa using hlast
      simp
    | cons b l =>
      obtain ⟨hrest, hl⟩ := List.pairwise_cons.mp h
      rw [List.getLast?_cons_cons] at hlast
      have hhead : b ∈ (b :: l).head? := rfl
      obtain ⟨hle, hlength⟩ := ih hl hhead hlast
      have hlt : seq a < seq b := hrest b List.mem_cons_self
      rw [List.length_cons]
      omega

theorem missing_single (a : α) : missing seq [a] = 0 := by simp [missing]

theorem missing_snoc {l : List α} {last a : α} (h : l.Pairwise fun a b => seq a < seq b)
    (hlast : last ∈ l.getLast?) (ha : seq last < seq a) :
    missing seq (l ++ [a]) = missing seq l + (seq a - seq last - 1) := by
  cases l with
  | nil => cases hlast
  | cons first l =>
    obtain ⟨hle, hlength⟩ := length_le_of_rises h rfl hlast
    have hback : (first :: l ++ [a]).getLast? = some a := List.getLast?_concat ..
    rw [missing, missing, hback, hlast]
    simp only [List.cons_append, List.head?_cons, List.length_cons, List.length_append,
      List.length_nil] at hlength ⊢
    omega

/-! ## The whole history -/

variable (key seq kept) in
/-- The missing numbers of all stretches. -/
def totalMissing (l : List α) : Nat :=
  ((stretches key l).map fun stretch => missing seq (stretch.filter kept)).sum

/-- The record kept last is of the last stretch, which has one. -/
theorem last_kept {l : List α} (h : ∀ stretch ∈ stretches key l, Rising seq kept stretch)
    {b : α} (hb : b ∈ l.getLast?) : ∃ p ∈ (l.filter kept).getLast?, key p = key b ∧
      ∀ front last, stretches key l = front ++ [last] → p ∈ (last.filter kept).getLast? := by
  obtain ⟨front, last, heq, hb', -⟩ := stretches_join hb (rfl : key b = key b)
  have hmem : last ∈ stretches key l := by simp [heq]
  have hne := (h last hmem).kept_ne_nil (List.ne_nil_of_mem_splitBy hmem)
  have hflat : l = front.flatten ++ last := by
    rw [← stretches_flatten key l, heq]
    simp
  have hkept : (l.filter kept).getLast? = (last.filter kept).getLast? := by
    rw [hflat, List.filter_append, List.getLast?_append_of_ne_nil _ hne]
  have hp : (last.filter kept).getLast? = some _ := List.getLast?_eq_some_getLast hne
  generalize (last.filter kept).getLast hne = p at hp
  have hpmem : p ∈ last := (List.mem_filter.mp (List.mem_of_getLast? hp)).1
  refine ⟨p, hkept.trans hp, stretches_key hmem hpmem (List.mem_of_getLast? hb'), ?_⟩
  rintro front' last' heq'
  obtain rfl : last = last' := by simpa using (List.append_inj' (heq.symm.trans heq') rfl).2
  exact hp

theorem rising_snoc {l : List α} {a : α}
    (h : ∀ stretch ∈ stretches key l, Rising seq kept stretch) (ha : Follows key seq kept l a) :
    ∀ stretch ∈ stretches key (l ++ [a]), Rising seq kept stretch := by
  by_cases hjoin : ∃ b ∈ l.getLast?, key b = key a
  · obtain ⟨b, hb, hkey⟩ := hjoin
    obtain ⟨front, last, heq, -, hnew⟩ := stretches_join hb hkey
    obtain ⟨p, hp, hpkey, hplast⟩ := last_kept h hb
    rw [heq] at h
    rw [hnew]
    intro stretch hs
    rcases List.mem_append.mp hs with hs | hs
    · exact h stretch (List.mem_append_left _ hs)
    · obtain rfl := List.mem_singleton.mp hs
      refine (h last (by simp)).snoc (hplast front last heq) (ha.trans ?_)
      constructor
      · exact fun hall => hall p hp (hpkey.trans hkey)
      · intro hlt q hq _
        rwa [Option.mem_unique hq hp]
  · have hother : ∀ b ∈ l.getLast?, key b ≠ key a := fun b hb hkey => hjoin ⟨b, hb, hkey⟩
    rw [stretches_start hother]
    intro stretch hs
    rcases List.mem_append.mp hs with hs | hs
    · exact h stretch hs
    · obtain rfl := List.mem_singleton.mp hs
      refine Rising.single (ha.mpr fun p hp hkey => ?_)
      cases hlast : l.getLast? with
      | none =>
        rw [List.getLast?_eq_none_iff.mp hlast] at hp
        cases hp
      | some b =>
        obtain ⟨q, hq, hqkey, -⟩ := last_kept h hlast
        obtain rfl := Option.mem_unique hp hq
        exact absurd (hqkey.symm.trans hkey) (hother b hlast)

/-- One more record adds the numbers between it and the one kept before. -/
theorem totalMissing_snoc {l : List α} {a : α}
    (h : ∀ stretch ∈ stretches key l, Rising seq kept stretch) (ha : Follows key seq kept l a) :
    totalMissing key seq kept (l ++ [a]) = totalMissing key seq kept l + gap key seq kept l a := by
  by_cases hjoin : ∃ b ∈ l.getLast?, key b = key a
  · obtain ⟨b, hb, hkey⟩ := hjoin
    obtain ⟨front, last, heq, -, hnew⟩ := stretches_join hb hkey
    obtain ⟨p, hp, hpkey, hplast⟩ := last_kept h hb
    have hpa : key p = key a := hpkey.trans hkey
    rw [heq] at h
    have hadded : missing seq ((last ++ [a]).filter kept) =
        missing seq (last.filter kept) + gap key seq kept l a := by
      rw [List.filter_append, gap, hp]
      by_cases hk : kept a = true
      · have hlt : seq p < seq a := ha.mp hk p hp hpa
        have hsnoc := missing_snoc (h last (by simp)).rises (hplast front last heq) hlt
        rw [List.filter_cons_of_pos hk, List.filter_nil, hsnoc]
        simp only [hk, hpa, and_self, if_true]
      · rw [List.filter_cons_of_neg hk, List.filter_nil, List.append_nil]
        simp [hk]
    rw [totalMissing, totalMissing, heq, hnew]
    simp only [List.map_append, List.map_cons, List.map_nil, List.sum_append, List.sum_cons,
      List.sum_nil, hadded]
    omega
  · have hother : ∀ b ∈ l.getLast?, key b ≠ key a := fun b hb hkey => hjoin ⟨b, hb, hkey⟩
    have hgap : gap key seq kept l a = 0 := by
      cases hlast : l.getLast? with
      | none =>
        rw [List.getLast?_eq_none_iff.mp hlast]
        rfl
      | some b =>
        obtain ⟨p, hp, hpkey, -⟩ := last_kept h hlast
        have hpa : key p ≠ key a := fun hk => hother b hlast (hpkey.symm.trans hk)
        rw [gap, hp]
        simp [hpa]
    have hsingle : missing seq ([a].filter kept) = 0 := by
      by_cases hk : kept a = true
      · rw [List.filter_cons_of_pos hk]
        exact missing_single a
      · rw [List.filter_cons_of_neg hk]
        rfl
    rw [hgap, totalMissing, totalMissing, stretches_start hother]
    simp [hsingle]

end WebHtop.Lib.Succession
