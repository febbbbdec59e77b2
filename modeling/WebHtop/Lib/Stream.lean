import Mathlib.Algebra.BigOperators.Group.List.Basic
import Mathlib.Data.Int.Log
import Mathlib.Data.List.Induction
import Mathlib.Data.List.Nodup
import Mathlib.Data.List.SplitBy
import Mathlib.Data.Nat.Digits.Lemmas
import Mathlib.Data.Rat.Floor
import Mathlib.Tactic.FieldSimp
import Mathlib.Tactic.Linarith
import Mathlib.Tactic.Positivity

/-!
# Self-delimiting items on a stream

A format is given by what the front of a stream shows: nothing decided yet, an
error, or a first item and what follows it. If more input never changes a decision
once it is made, cutting a stream into items does not depend on how it arrives.
-/

namespace WebHtop.Lib

universe u v w

inductive Front (α : Type u) (β : Type v)
  | more
  | bad
  | item (x : β) (rest : List α)

variable {α : Type u} {β : Type v}

/-- Later input changes no decision, and an item takes up some input. -/
structure SelfDelimiting (front : List α → Front α β) : Prop where
  item_append : ∀ {b x r} b', front b = .item x r → front (b ++ b') = .item x (r ++ b')
  bad_append : ∀ {b} b', front b = .bad → front (b ++ b') = .bad
  shorter : ∀ {b x r}, front b = .item x r → r.length < b.length

def cutAux (front : List α → Front α β) : Nat → List α → List β × Option (List α)
  | 0, b => ([], some b)
  | fuel + 1, b =>
    match front b with
    | .more => ([], some b)
    | .bad => ([], none)
    | .item x r => (x :: (cutAux front fuel r).1, (cutAux front fuel r).2)

/-- The items of a stream and its undecided rest; no rest when the stream is bad. -/
def cut (front : List α → Front α β) (b : List α) : List β × Option (List α) :=
  cutAux front (b.length + 1) b

namespace SelfDelimiting

variable {front : List α → Front α β} (hf : SelfDelimiting front) {b r : List α} {x : β}

include hf

/-- Induction along the items of a stream. -/
theorem induction {P : List α → Prop} (more : ∀ b, front b = .more → P b)
    (bad : ∀ b, front b = .bad → P b) (item : ∀ b x r, front b = .item x r → P r → P b)
    (b : List α) : P b := by
  generalize hn : b.length = n
  induction n using Nat.strongRecOn generalizing b with
  | ind n ih =>
      cases hb : front b with
      | more => exact more b hb
      | bad => exact bad b hb
      | item x r => exact item b x r hb (ih r.length (hn ▸ hf.shorter hb) r rfl)

theorem cutAux_eq {fuel : Nat} (h : b.length < fuel) : cutAux front fuel b = cut front b := by
  have hany : ∀ b : List α, ∀ n m, b.length < n → b.length < m →
      cutAux front n b = cutAux front m b := by
    refine hf.induction ?_ ?_ ?_
    · intro b hb n m hn hm
      cases n <;> cases m <;> simp_all [cutAux]
    · intro b hb n m hn hm
      cases n <;> cases m <;> simp_all [cutAux]
    · intro b x r hb ih n m hn hm
      have hr := hf.shorter hb
      cases n with
      | zero => omega
      | succ n =>
          cases m with
          | zero => omega
          | succ m =>
              have := ih n m (by omega) (by omega)
              simp only [cutAux, hb, this]
  exact hany b _ _ h (Nat.lt_succ_self _)

omit hf in
theorem cut_more (h : front b = .more) : cut front b = ([], some b) := by
  simp [cut, cutAux, h]

omit hf in
theorem cut_bad (h : front b = .bad) : cut front b = ([], none) := by
  simp [cut, cutAux, h]

theorem cut_item (h : front b = .item x r) :
    cut front b = (x :: (cut front r).1, (cut front r).2) := by
  have := hf.cutAux_eq (hf.shorter h)
  simp only [cut, cutAux, h] at this ⊢
  rw [this]

/-- What follows a bad front is not looked at. -/
theorem cut_append_bad (h : (cut front b).2 = none) (b' : List α) :
    cut front (b ++ b') = cut front b := by
  induction b using hf.induction with
  | more b hb => simp [cut_more hb] at h
  | bad b hb => rw [cut_bad hb, cut_bad (hf.bad_append b' hb)]
  | item b x r hb ih =>
      rw [hf.cut_item hb] at h ⊢
      rw [hf.cut_item (hf.item_append b' hb), ih h]

/-- A stream may be cut at any point and taken up from its rest. -/
theorem cut_append {t : List α} (h : (cut front b).2 = some t) (b' : List α) :
    cut front (b ++ b') = ((cut front b).1 ++ (cut front (t ++ b')).1, (cut front (t ++ b')).2) := by
  induction b using hf.induction with
  | more b hb =>
      rw [cut_more hb] at h ⊢
      obtain rfl := Option.some.inj h
      rfl
  | bad b hb => simp [cut_bad hb] at h
  | item b x r hb ih =>
      rw [hf.cut_item hb] at h ⊢
      rw [hf.cut_item (hf.item_append b' hb), ih h]
      rfl

/-- Later input only adds items. -/
theorem cut_prefix (b b' : List α) : (cut front b).1 <+: (cut front (b ++ b')).1 := by
  cases h : (cut front b).2 with
  | none => rw [hf.cut_append_bad h]
  | some t =>
      rw [hf.cut_append h]
      exact List.prefix_append _ _

/-- A proper beginning of one item decides nothing. -/
theorem front_beginning {part : List α} (hb : front b = .item x []) (hp : part <+: b) (hne : part ≠ b) :
    front part = .more := by
  obtain ⟨rest, rfl⟩ := hp
  cases hfront : front part with
  | more => rfl
  | bad =>
      rw [hf.bad_append rest hfront] at hb
      cases hb
  | item y r =>
      rw [hf.item_append rest hfront] at hb
      injection hb with _ hnil
      exact absurd (List.append_eq_nil_iff.mp hnil).2 fun hrest => hne (by rw [hrest, List.append_nil])

/-- Whole texts of items, and the beginning of another. -/
theorem cut_whole {γ : Type w} {text : γ → List α} {item : γ → β}
    (h : ∀ c, front (text c) = .item (item c) []) (cs : List γ) {part : List α}
    (hpart : front part = .more) :
    cut front (cs.flatMap text ++ part) = (cs.map item, some part) := by
  induction cs with
  | nil => exact cut_more hpart
  | cons c cs ih =>
      rw [List.flatMap_cons, List.append_assoc, hf.cut_item (hf.item_append _ (h c)), List.nil_append, ih]
      rfl

end SelfDelimiting

/-! ## Items up to the first one that is refused -/

universe x

variable {γ : Type w} {ε : Type x} {f : β → Except ε γ} {p : β} {ps qs : List β}

/-- What a reader takes that gives up at its first error. -/
def takeOk (f : β → Except ε γ) : List β → List γ
  | [] => []
  | p :: ps =>
    match f p with
    | .ok c => c :: takeOk f ps
    | .error _ => []

theorem takeOk_ok {c : γ} (h : f p = .ok c) : takeOk f (p :: ps) = c :: takeOk f ps := by
  simp only [takeOk, h]

theorem takeOk_error {e : ε} (h : f p = .error e) : takeOk f (p :: ps) = [] := by
  simp only [takeOk, h]

/-- What has been taken belongs to the first items. -/
theorem takeOk_read (f : β → Except ε γ) (ps : List β) :
    ∃ qs, qs <+: ps ∧ List.Forall₂ (fun p c => f p = .ok c) qs (takeOk f ps) := by
  induction ps with
  | nil => exact ⟨[], List.prefix_refl _, .nil⟩
  | cons p ps ih =>
      obtain ⟨qs, hqs, hread⟩ := ih
      cases hp : f p with
      | ok c =>
          rw [takeOk_ok hp]
          exact ⟨p :: qs, (List.prefix_cons_inj p).mpr hqs, .cons hp hread⟩
      | error e =>
          rw [takeOk_error hp]
          exact ⟨[], List.nil_prefix, .nil⟩

/-- A reader that meets no error takes every item. -/
theorem takeOk_all (h : ∀ p ∈ ps, ∃ c, f p = .ok c) :
    List.Forall₂ (fun p c => f p = .ok c) ps (takeOk f ps) := by
  induction ps with
  | nil => exact .nil
  | cons p ps ih =>
      obtain ⟨⟨c, hc⟩, hps⟩ := List.forall_mem_cons.mp h
      rw [takeOk_ok hc]
      exact .cons hc (ih hps)

theorem takeOk_append (h : ∀ p ∈ ps, ∃ c, f p = .ok c) :
    takeOk f (ps ++ qs) = takeOk f ps ++ takeOk f qs := by
  induction ps with
  | nil => rfl
  | cons p ps ih =>
      obtain ⟨c, hc⟩ := h p List.mem_cons_self
      rw [List.cons_append, takeOk_ok hc, takeOk_ok hc, List.cons_append,
        ih fun q hq => h q (List.mem_cons_of_mem p hq)]

end WebHtop.Lib
