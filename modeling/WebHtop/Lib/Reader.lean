import Mathlib.Algebra.BigOperators.Group.List.Basic
import Mathlib.Data.Int.Log
import Mathlib.Data.List.Induction
import Mathlib.Data.List.Nodup
import Mathlib.Data.List.SplitBy
import Mathlib.Data.Nat.Digits.Lemmas
import Mathlib.Data.Rat.Floor
import Mathlib.Tactic.FieldSimp
import Mathlib.Tactic.Linarith
import Mathlib.Tactic.Positivity

/-!
# Readers

A reader works on a state that it changes also when it fails. Two outcomes stand for what a program
must not come to: an access outside of its data, and a loop or recursion that is cut off. A relation
between the states before and behind a reader is established piece by piece.
-/

namespace WebHtop.Lib

universe u v w

inductive Outcome (α : Type u) where
  | value (a : α)
  | failed
  | outside
  | running

/-- A value or an orderly failure. -/
def Outcome.Settled {α : Type u} : Outcome α → Prop
  | value _ => True
  | failed => True
  | outside => False
  | running => False

abbrev Reader (σ : Type v) (α : Type u) := σ → Outcome α × σ

namespace Reader

variable {σ : Type v} {α β : Type u}

def fail : Reader σ α := fun s => (.failed, s)

protected def pure (a : α) : Reader σ α := fun s => (.value a, s)

protected def bind (m : Reader σ α) (f : α → Reader σ β) : Reader σ β := fun s =>
  match m s with
  | (.value a, t) => f a t
  | (.failed, t) => (.failed, t)
  | (.outside, t) => (.outside, t)
  | (.running, t) => (.running, t)

instance : Monad (Reader σ) where
  pure := Reader.pure
  bind := Reader.bind

/-- A step that always succeeds. -/
def modify (f : σ → σ) : Reader σ PUnit := fun s => (.value ⟨⟩, f s)

theorem bind_of_value {m : Reader σ α} {f : α → Reader σ β} {s t : σ} {a : α}
    (h : m s = (.value a, t)) : (m >>= f) s = f a t := by
  show Reader.bind m f s = _
  rw [Reader.bind, h]

theorem bind_of_failed {m : Reader σ α} {f : α → Reader σ β} {s t : σ}
    (h : m s = (.failed, t)) : (m >>= f) s = (.failed, t) := by
  show Reader.bind m f s = _
  rw [Reader.bind, h]

theorem bind_of_outside {m : Reader σ α} {f : α → Reader σ β} {s t : σ}
    (h : m s = (.outside, t)) : (m >>= f) s = (.outside, t) := by
  show Reader.bind m f s = _
  rw [Reader.bind, h]

/-- A reader in two parts has a value when both have. -/
theorem bind_eq_value {m : Reader σ α} {f : α → Reader σ β} {s u : σ} {b : β} :
    (m >>= f) s = (.value b, u) ↔ ∃ a t, m s = (.value a, t) ∧ f a t = (.value b, u) := by
  constructor
  · intro h
    have h : Reader.bind m f s = (.value b, u) := h
    unfold Reader.bind at h
    split at h
    · rename_i a t hm
      exact ⟨a, t, hm, h⟩
    all_goals cases (Prod.mk.inj h).1
  · intro ⟨a, t, hm, hf⟩
    rw [bind_of_value hm]
    exact hf

/-- What a reader does from a state: it settles, and the relation holds of what it leaves. -/
def Leads (R : σ → σ → Prop) (m : Reader σ α) (s : σ) : Prop := R s (m s).2 ∧ (m s).1.Settled

variable {R : σ → σ → Prop}

theorem leads_pure (hrefl : ∀ s, R s s) (a : α) (s : σ) : Leads R (pure a) s := ⟨hrefl s, trivial⟩

theorem leads_fail (hrefl : ∀ s, R s s) (s : σ) : Leads R (fail : Reader σ α) s := ⟨hrefl s, trivial⟩

/-- The rule of composition for a transitive relation. -/
theorem leads_bind (htrans : ∀ {a b c}, R a b → R b c → R a c) {m : Reader σ α}
    {f : α → Reader σ β} {s : σ} (hm : Leads R m s)
    (hf : ∀ a t, m s = (.value a, t) → R s t → Leads R (f a) t) : Leads R (m >>= f) s := by
  obtain ⟨hstep, hsettled⟩ := hm
  rcases hms : m s with ⟨o, t⟩
  rw [hms] at hstep hsettled
  cases o with
  | value a =>
    have hnext := hf a t hms hstep
    unfold Leads
    rw [bind_of_value hms]
    exact ⟨htrans hstep hnext.1, hnext.2⟩
  | failed =>
    unfold Leads
    rw [bind_of_failed hms]
    exact ⟨hstep, trivial⟩
  | outside => cases hsettled
  | running => cases hsettled

theorem leads_ite {p : Prop} [Decidable p] {m n : Reader σ α} {s : σ} (hm : p → Leads R m s)
    (hn : ¬ p → Leads R n s) : Leads R (if p then m else n) s := by
  split
  · rename_i hp
    exact hm hp
  · rename_i hp
    exact hn hp

end Reader

end WebHtop.Lib
