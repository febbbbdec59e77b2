import Mathlib.Algebra.BigOperators.Group.List.Basic
import Mathlib.Data.Int.Log
import Mathlib.Data.List.Induction
import Mathlib.Data.List.Nodup
import Mathlib.Data.List.SplitBy
import Mathlib.Data.Nat.Digits.Lemmas
import Mathlib.Data.Rat.Floor
import Mathlib.Tactic.FieldSimp
import Mathlib.Tactic.Linarith
import Mathlib.Tactic.Positivity

/-!
# Runs of a labelled step relation

A run is a finite list of labels with the states it passes through left implicit.
Invariants are proved once for a step and then hold of every state a run reaches.
A run may be restricted to the steps that meet a condition on the state before
the step; the restriction is again a step relation, so the same rules apply.
-/

namespace WebHtop.Lib

universe u v w x

variable {σ : Type u} {ε : Type v}

/-- `Run step s es t`: the labels `es`, oldest first, lead from `s` to `t`. -/
inductive Run (step : σ → ε → σ → Prop) (s : σ) : List ε → σ → Prop
  | nil : Run step s [] s
  | snoc {es : List ε} {t : σ} {e : ε} {u : σ} :
      Run step s es t → step t e u → Run step s (es ++ [e]) u

variable {step step' : σ → ε → σ → Prop} {s t u : σ} {es es' : List ε}

/-- The invariant rule: what holds at the start and survives a step holds throughout. -/
theorem Run.invariant {I : σ → Prop} (hr : Run step s es t) (h0 : I s)
    (hs : ∀ {a e b}, I a → step a e b → I b) : I t := by
  induction hr with
  | nil => exact h0
  | snoc _ hstep ih => exact hs ih hstep

/-- Weakening the step relation keeps the run. -/
theorem Run.mono (hr : Run step s es t) (h : ∀ {a e b}, step a e b → step' a e b) :
    Run step' s es t := by
  induction hr with
  | nil => exact .nil
  | snoc _ hstep ih => exact .snoc ih (h hstep)

theorem Run.trans (hr : Run step s es t) (hr' : Run step t es' u) : Run step s (es ++ es') u := by
  induction hr' with
  | nil => simpa using hr
  | snoc _ hstep ih =>
      rw [← List.append_assoc]
      exact .snoc ih hstep

theorem Run.single {e : ε} (h : step s e t) : Run step s [e] t := Run.snoc .nil h

theorem Run.snoc_inv {e : ε} (hr : Run step s (es ++ [e]) u) :
    ∃ t, Run step s es t ∧ step t e u := by
  generalize hl : es ++ [e] = l at hr
  cases hr with
  | nil => exact absurd hl (by simp)
  | snoc hr' hstep =>
      obtain ⟨rfl, he⟩ := List.append_inj' hl rfl
      obtain rfl := List.singleton_inj.mp he
      exact ⟨_, hr', hstep⟩

/-- Forward simulation: when every step is matched by steps of another system, so is every run. -/
theorem Run.simulation {τ : Type w} {δ : Type x} {next : τ → δ → τ → Prop} {R : σ → τ → Prop} {p : τ}
    (hr : Run step s es t) (h0 : R s p)
    (hs : ∀ {a e b q}, R a q → step a e b → ∃ ds q', Run next q ds q' ∧ R b q') :
    ∃ ds q, Run next p ds q ∧ R t q := by
  induction hr with
  | nil => exact ⟨[], p, .nil, h0⟩
  | snoc _ hstep ih =>
      obtain ⟨ds, q, hrun, hR⟩ := ih
      obtain ⟨ds', q', hmore, hR'⟩ := hs hR hstep
      exact ⟨ds ++ ds', q', hrun.trans hmore, hR'⟩

/-- The steps of `step` that meet a condition on the state before them. -/
def Where (step : σ → ε → σ → Prop) (ok : σ → ε → Prop) : σ → ε → σ → Prop :=
  fun s e t => ok s e ∧ step s e t

theorem Run.of_where {ok : σ → ε → Prop} (hr : Run (Where step ok) s es t) : Run step s es t :=
  hr.mono fun h => h.2

/-- The steps of a partial function: `e` is enabled at `s` when it has a successor. -/
def StepsOf (f : σ → ε → Option σ) : σ → ε → σ → Prop := fun s e t => f s e = some t

/-- Follow a list of labels through a partial step function. -/
def follow (f : σ → ε → Option σ) (s : σ) : List ε → Option σ
  | [] => some s
  | e :: es => (f s e).bind fun t => follow f t es

theorem follow_append (f : σ → ε → Option σ) (s : σ) (es es' : List ε) :
    follow f s (es ++ es') = (follow f s es).bind fun t => follow f t es' := by
  induction es generalizing s with
  | nil => rfl
  | cons e es ih => simp only [List.cons_append, follow, ih, Option.bind_assoc]

/-- A step function that an invariant keeps enabled can be followed along any labels. -/
theorem follow_total {f : σ → ε → Option σ} {I : σ → Prop} {s : σ} (h0 : I s)
    (hs : ∀ {a} e, I a → ∃ b, f a e = some b ∧ I b) (es : List ε) :
    ∃ t, follow f s es = some t ∧ I t := by
  induction es generalizing s with
  | nil => exact ⟨s, rfl, h0⟩
  | cons e es ih =>
      obtain ⟨b, hb, hi⟩ := hs e h0
      obtain ⟨t, ht, hi⟩ := ih hi
      exact ⟨t, by simp only [follow, hb, Option.bind_some, ht], hi⟩

/-- The invariant rule for labels that each meet a condition. -/
theorem follow_invariant {f : σ → ε → Option σ} {I : σ → Prop} {ok : ε → Prop} {s t : σ}
    {es : List ε} (hs : ∀ {a e b}, I a → ok e → f a e = some b → I b) (h0 : I s)
    (hes : ∀ e ∈ es, ok e) (h : follow f s es = some t) : I t := by
  induction es generalizing s with
  | nil => exact Option.some.inj h ▸ h0
  | cons e es ih =>
      obtain ⟨m, hm, ht⟩ := Option.bind_eq_some_iff.mp h
      obtain ⟨he, hes⟩ := List.forall_mem_cons.mp hes
      exact ih (hs h0 he hm) hes ht

theorem run_of_follow {f : σ → ε → Option σ} {s t : σ} {es : List ε}
    (h : follow f s es = some t) : Run (StepsOf f) s es t := by
  induction es generalizing s with
  | nil =>
      obtain rfl := Option.some.inj h
      exact .nil
  | cons e es ih =>
      obtain ⟨m, hm, ht⟩ := Option.bind_eq_some_iff.mp h
      exact (Run.single hm).trans (ih ht)

theorem follow_of_run {f : σ → ε → Option σ} {s t : σ} {es : List ε}
    (h : Run (StepsOf f) s es t) : follow f s es = some t := by
  induction h with
  | nil => rfl
  | @snoc es t e u _ hstep ih =>
      rw [follow_append, ih, Option.bind_some, follow, show f t e = some u from hstep]
      rfl

theorem Run.unique {f : σ → ε → Option σ} {s t t' : σ} {es : List ε}
    (h : Run (StepsOf f) s es t) (h' : Run (StepsOf f) s es t') : t = t' :=
  Option.some.inj ((follow_of_run h).symm.trans (follow_of_run h'))

/-- What the steps along some labels show, in their order. -/
def gather {α : Type w} (f : σ → ε → Option σ) (g : σ → ε → σ → List α) (s : σ) : List ε → List α
  | [] => []
  | e :: es =>
    match f s e with
    | none => []
    | some t => g s e t ++ gather f g t es

theorem gather_snoc {α : Type w} {f : σ → ε → Option σ} {g : σ → ε → σ → List α} {s t u : σ}
    {es : List ε} {e : ε} (h : follow f s es = some t) (he : f t e = some u) :
    gather f g s (es ++ [e]) = gather f g s es ++ g t e u := by
  induction es generalizing s with
  | nil =>
      obtain rfl := Option.some.inj h
      simp [gather, he]
  | cons e₀ es ih =>
      obtain ⟨m, hm, ht⟩ := Option.bind_eq_some_iff.mp h
      simp only [List.cons_append, gather, hm, ih ht, List.append_assoc]

/-- The invariant rule for a state together with what the steps to it have shown. -/
theorem Run.gathered {α : Type w} {f : σ → ε → Option σ} {g : σ → ε → σ → List α} {s t : σ}
    {es : List ε} {I : List α → σ → Prop} (hr : Run (StepsOf f) s es t) (h0 : I [] s)
    (hs : ∀ {l a e b}, I l a → f a e = some b → I (l ++ g a e b) b) : I (gather f g s es) t := by
  induction hr with
  | nil => exact h0
  | snoc hrun hstep ih =>
      rw [gather_snoc (follow_of_run hrun) hstep]
      exact hs ih hstep

/-- What each label raises by one at most takes every value in between. -/
theorem exists_between {α : Type w} {f : List α → Nat} (hf : ∀ l a, f (l ++ [a]) ≤ f l + 1)
    {front back : List α} (h : front <+: back) {v : Nat} (hfront : f front ≤ v) (hback : v ≤ f back) :
    ∃ l, front <+: l ∧ l <+: back ∧ f l = v := by
  obtain ⟨rest, rfl⟩ := h
  induction rest using List.reverseRecOn with
  | nil =>
      rw [List.append_nil] at hback ⊢
      exact ⟨front, List.prefix_refl _, List.prefix_refl _, le_antisymm hfront hback⟩
  | append_singleton rest a ih =>
      rw [← List.append_assoc] at hback ⊢
      by_cases hv : v ≤ f (front ++ rest)
      · obtain ⟨l, hfront, hl, hvalue⟩ := ih hv
        exact ⟨l, hfront, hl.trans (List.prefix_append _ _), hvalue⟩
      · have hstep := hf (front ++ rest) a
        refine ⟨front ++ rest ++ [a], ?_, List.prefix_refl _, by omega⟩
        exact (List.prefix_append _ _).trans (List.prefix_append _ _)

/-- Follow labels as long as each step meets its condition. -/
theorem run_where_of_follow {f : σ → ε → Option σ} {ok : σ → ε → Prop}
    [∀ s e, Decidable (ok s e)] {s t : σ} {es : List ε}
    (h : follow (fun s e => if ok s e then f s e else none) s es = some t) :
    Run (Where (StepsOf f) ok) s es t := by
  refine (run_of_follow h).mono fun {a e b} hstep => ?_
  simp only [StepsOf] at hstep
  split at hstep
  · exact ⟨‹ok a e›, hstep⟩
  · simp at hstep

end WebHtop.Lib
