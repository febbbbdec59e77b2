import WebHtop.Lib.Runs

/-!
# Descriptors and their owners

`UniqueFd` of common/unique_fd.hpp, in a process in which other code opens and closes descriptors
as well. Objects are known by their address. A `close` releases its descriptor whatever it reports,
and may leave any `errno`.
-/

namespace WebHtop.Common

open WebHtop.Lib

/-- The objects that live with their `fd_`, the open descriptors, and those of them that other code
has as plain numbers. -/
structure Descriptors where
  objects : Nat → Option Int := fun _ => none
  opened : Finset Nat := ∅
  held : Finset Nat := ∅
  errno : Int32 := 0
  /-- Every descriptor that an object closed; whether it was open, and nobody else's. -/
  closed : List (Nat × Bool) := []

namespace Descriptors

variable (w : Descriptors)

def store (id : Nat) (fd : Option Int) : Descriptors :=
  { w with objects := Function.update w.objects id fd }

def close (fd : Nat) (errno : Int32) : Descriptors :=
  { w with
    opened := w.opened.erase fd
    errno
    closed := w.closed ++ [(fd, decide (fd ∈ w.opened ∧ fd ∉ w.held))] }

/-! ## The members of `UniqueFd` -/

/-- `UniqueFd(int fd)`. -/
def construct (id : Nat) (fd : Int) : Option Descriptors :=
  match w.objects id with
  | none => some (w.store id (some fd))
  | some _ => none

def release (id : Nat) : Option (Int × Descriptors) :=
  (w.objects id).map fun old => (old, w.store id (some (-1)))

def reset (id : Nat) (fd : Int) (errno : Int32) : Option Descriptors :=
  (w.objects id).map fun old =>
    let w' := w.store id (some fd)
    if 0 ≤ old then { w'.close old.toNat errno with errno := w'.errno } else w'

/-- `~UniqueFd`. -/
def destroy (id : Nat) (errno : Int32) : Option Descriptors :=
  (w.reset id (-1) errno).map fun w => w.store id none

/-- `UniqueFd(UniqueFd&&)`. -/
def moveConstruct (id other : Nat) : Option Descriptors :=
  (w.release other).bind fun r => r.2.construct id r.1

/-- `operator=(UniqueFd&&)`. -/
def moveAssign (id other : Nat) (errno : Int32) : Option Descriptors :=
  if id = other then (w.objects id).map fun _ => w
  else (w.release other).bind fun r => r.2.reset id r.1 errno

/-! ## The process -/

/-- Other code gets a descriptor, or closes one that it has, or calls a member. -/
inductive Event
  | opens (fd : Nat) (errno : Int32)
  | closes (fd : Nat) (errno : Int32)
  | construct (id : Nat) (fd : Int)
  | destroy (id : Nat) (errno : Int32)
  | moveConstruct (id other : Nat)
  | moveAssign (id other : Nat) (errno : Int32)
  | release (id : Nat)
  | reset (id : Nat) (fd : Int) (errno : Int32)

/-- Other code no longer counts on a descriptor. -/
def handOver (fd : Int) : Descriptors := { w with held := w.held.filter fun n => (n : Int) ≠ fd }

/-- Other code has what `Release` returns. -/
def takeOver (fd : Int) : Descriptors :=
  { w with held := if 0 ≤ fd then insert fd.toNat w.held else w.held }

def step (w : Descriptors) : Event → Option Descriptors
  | .opens fd errno =>
    if fd ∈ w.opened then none
    else some { w with opened := insert fd w.opened, held := insert fd w.held, errno }
  | .closes fd errno =>
    if fd ∈ w.held then
      some { w with opened := w.opened.erase fd, held := w.held.erase fd, errno }
    else none
  | .construct id fd => (w.handOver fd).construct id fd
  | .destroy id errno => w.destroy id errno
  | .moveConstruct id other => w.moveConstruct id other
  | .moveAssign id other errno => w.moveAssign id other errno
  | .release id => (w.release id).map fun r => r.2.takeOver r.1
  | .reset id fd errno => (w.handOver fd).reset id fd errno

/-- The descriptor that an object is given. -/
def Event.adopts : Event → Option Int
  | .construct _ fd | .reset _ fd _ => some fd
  | _ => none

/-- Objects are given only what other code has. -/
def Linear (w : Descriptors) (e : Event) : Prop := ∀ fd : Nat, e.adopts = some (fd : Int) → fd ∈ w.held

theorem linear_of_none {w : Descriptors} {e : Event} (h : e.adopts = none) : Linear w e := by
  intro fd hfd
  cases h.symm.trans hfd

/-- Every open descriptor has one owner, and no object has another one. -/
structure Owned (w : Descriptors) : Prop where
  opened : ∀ {id fd : Nat}, w.objects id = some (fd : Int) → fd ∈ w.opened ∧ fd ∉ w.held
  unique : ∀ {id id' fd : Nat}, w.objects id = some (fd : Int) → w.objects id' = some (fd : Int) →
    id = id'
  held : w.held ⊆ w.opened
  covered : ∀ fd ∈ w.opened, fd ∈ w.held ∨ ∃ id, w.objects id = some (fd : Int)
  closed : ∀ c ∈ w.closed, c.2 = true

theorem owned_empty : Owned {} where
  opened h := nomatch h
  unique h := nomatch h
  held := by simp
  covered := by simp
  closed := by simp

@[simp] theorem objects_store (id j : Nat) (fd : Option Int) :
    (w.store id fd).objects j = if j = id then fd else w.objects j :=
  Function.update_apply _ _ _ _

@[simp] theorem opened_store (id : Nat) (fd : Option Int) : (w.store id fd).opened = w.opened := rfl

@[simp] theorem held_store (id : Nat) (fd : Option Int) : (w.store id fd).held = w.held := rfl

@[simp] theorem closed_store (id : Nat) (fd : Option Int) : (w.store id fd).closed = w.closed := rfl

@[simp] theorem objects_handOver (fd : Int) : (w.handOver fd).objects = w.objects := rfl

@[simp] theorem opened_handOver (fd : Int) : (w.handOver fd).opened = w.opened := rfl

@[simp] theorem objects_takeOver (fd : Int) : (w.takeOver fd).objects = w.objects := rfl

@[simp] theorem opened_takeOver (fd : Int) : (w.takeOver fd).opened = w.opened := rfl

@[simp] theorem mem_handOver {fd : Int} {n : Nat} :
    n ∈ (w.handOver fd).held ↔ n ∈ w.held ∧ (n : Int) ≠ fd :=
  Finset.mem_filter

@[simp] theorem mem_takeOver {fd : Int} {n : Nat} :
    n ∈ (w.takeOver fd).held ↔ n ∈ w.held ∨ (n : Int) = fd := by
  unfold takeOver
  split_ifs with h
  · rw [Finset.mem_insert, or_comm]
    exact or_congr_right (by omega)
  · exact (or_iff_left (by omega)).symm

theorem some_neg_one_ne (n : Nat) : some (-1 : Int) ≠ some (n : Int) := by
  intro h
  have := Option.some.inj h
  omega

variable {w} {w' : Descriptors}

/-! ## Single steps -/

theorem Owned.opens (h : Owned w) {fd : Nat} (hfd : fd ∉ w.opened) (errno : Int32) :
    Owned { w with opened := insert fd w.opened, held := insert fd w.held, errno } where
  opened {id n} hid := by
    obtain ⟨hopen, hheld⟩ := h.opened hid
    refine ⟨Finset.mem_insert_of_mem hopen, fun hn => ?_⟩
    rcases Finset.mem_insert.mp hn with rfl | hn
    · exact hfd hopen
    · exact hheld hn
  unique := h.unique
  held := Finset.insert_subset_insert fd h.held
  covered n hn := by
    rcases Finset.mem_insert.mp hn with rfl | hn
    · exact .inl (Finset.mem_insert_self _ _)
    · exact (h.covered n hn).imp_left Finset.mem_insert_of_mem
  closed := h.closed

theorem Owned.closes (h : Owned w) {fd : Nat} (hfd : fd ∈ w.held) (errno : Int32) :
    Owned { w with opened := w.opened.erase fd, held := w.held.erase fd, errno } where
  opened {id n} hid := by
    obtain ⟨hopen, hheld⟩ := h.opened hid
    have hne : n ≠ fd := fun heq => hheld (heq ▸ hfd)
    exact ⟨Finset.mem_erase.mpr ⟨hne, hopen⟩, fun hn => hheld (Finset.mem_of_mem_erase hn)⟩
  unique := h.unique
  held := Finset.erase_subset_erase fd h.held
  covered n hn := by
    obtain ⟨hne, hn⟩ := Finset.mem_erase.mp hn
    exact (h.covered n hn).imp_left fun hheld => Finset.mem_erase.mpr ⟨hne, hheld⟩
  closed := h.closed

theorem Owned.construct (h : Owned w) {id : Nat} (hid : w.objects id = none) {fd : Int}
    (hfd : ∀ n : Nat, fd = n → n ∈ w.held) : Owned ((w.handOver fd).store id (some fd)) where
  opened {j n} hj := by
    rw [objects_store] at hj
    rw [opened_store, held_store, opened_handOver, mem_handOver]
    split_ifs at hj with heq
    · obtain rfl := Option.some.inj hj
      exact ⟨h.held (hfd n rfl), fun hn => hn.2 rfl⟩
    · obtain ⟨hopen, hheld⟩ := h.opened hj
      exact ⟨hopen, fun hn => hheld hn.1⟩
  unique {j j' n} hj hj' := by
    rw [objects_store] at hj hj'
    split_ifs at hj hj' with heq heq' heq'
    · exact heq.trans heq'.symm
    · exact absurd (hfd n (Option.some.inj hj)) (h.opened hj').2
    · exact absurd (hfd n (Option.some.inj hj')) (h.opened hj).2
    · exact h.unique hj hj'
  held n hn := h.held ((mem_handOver w).mp hn).1
  covered n hn := by
    rw [held_store, mem_handOver]
    rcases h.covered n hn with hheld | ⟨j, hj⟩
    · by_cases heq : (n : Int) = fd
      · exact .inr ⟨id, by simp [heq]⟩
      · exact .inl ⟨hheld, heq⟩
    · have hne : j ≠ id := by
        rintro rfl
        cases hid.symm.trans hj
      exact .inr ⟨j, by simpa [hne] using hj⟩
  closed := h.closed

theorem Owned.release (h : Owned w) {id : Nat} {fd : Int} (hid : w.objects id = some fd) :
    Owned ((w.store id (some (-1))).takeOver fd) where
  opened {j n} hj := by
    rw [objects_takeOver, objects_store] at hj
    split_ifs at hj with heq
    · exact absurd hj (some_neg_one_ne n)
    · obtain ⟨hopen, hheld⟩ := h.opened hj
      rw [mem_takeOver]
      refine ⟨hopen, fun hn => hn.elim hheld fun hfd => heq ?_⟩
      exact h.unique hj (hfd ▸ hid)
  unique {j j' n} hj hj' := by
    rw [objects_takeOver, objects_store] at hj hj'
    split_ifs at hj hj'
    · exact absurd hj (some_neg_one_ne n)
    · exact absurd hj (some_neg_one_ne n)
    · exact absurd hj' (some_neg_one_ne n)
    · exact h.unique hj hj'
  held n hn := by
    rcases (mem_takeOver _).mp hn with hn | rfl
    · exact h.held hn
    · exact (h.opened hid).1
  covered n hn := by
    rw [mem_takeOver]
    rcases h.covered n hn with hheld | ⟨j, hj⟩
    · exact .inl (.inl hheld)
    · by_cases heq : j = id
      · subst heq
        exact .inl (.inr (Option.some.inj (hj.symm.trans hid)))
      · exact .inr ⟨j, by simpa [heq] using hj⟩
  closed := h.closed

/-- The object is gone, and its descriptor closed. -/
def gone (w : Descriptors) (id : Nat) (old : Int) (errno : Int32) : Descriptors :=
  if 0 ≤ old then { (w.store id none).close old.toNat errno with errno := w.errno }
  else w.store id none

@[simp] theorem objects_gone (id j : Nat) (old : Int) (errno : Int32) :
    (w.gone id old errno).objects j = if j = id then none else w.objects j := by
  unfold gone
  split_ifs <;> simp [close, store, *]

@[simp] theorem held_gone (id : Nat) (old : Int) (errno : Int32) :
    (w.gone id old errno).held = w.held := by
  unfold gone
  split_ifs <;> rfl

theorem mem_opened_gone {id n : Nat} {old : Int} {errno : Int32} :
    n ∈ (w.gone id old errno).opened ↔ n ∈ w.opened ∧ (n : Int) ≠ old := by
  unfold gone
  split_ifs with hold
  · rw [and_comm]
    exact Finset.mem_erase.trans (and_congr_left fun _ => not_congr (by omega))
  · exact (and_iff_left (by omega)).symm

theorem Owned.gone (h : Owned w) {id : Nat} {old : Int} (hid : w.objects id = some old)
    (errno : Int32) : Owned (w.gone id old errno) where
  opened {j n} hj := by
    rw [objects_gone] at hj
    split_ifs at hj with heq
    rw [mem_opened_gone, held_gone]
    obtain ⟨hopen, hheld⟩ := h.opened hj
    exact ⟨⟨hopen, fun hn => heq (h.unique hj (hn ▸ hid))⟩, hheld⟩
  unique {j j' n} hj hj' := by
    rw [objects_gone] at hj hj'
    split_ifs at hj hj'
    exact h.unique hj hj'
  held n hn := by
    rw [held_gone] at hn
    refine mem_opened_gone.mpr ⟨h.held hn, ?_⟩
    rintro rfl
    exact (h.opened hid).2 hn
  covered n hn := by
    obtain ⟨hn, hne⟩ := mem_opened_gone.mp hn
    rw [held_gone]
    refine (h.covered n hn).imp_right fun ⟨j, hj⟩ => ⟨j, ?_⟩
    have hother : j ≠ id := by
      rintro rfl
      exact hne (Option.some.inj (hj.symm.trans hid))
    rw [objects_gone, if_neg hother, hj]
  closed c hc := by
    unfold Descriptors.gone at hc
    split_ifs at hc with hold
    · rcases List.mem_append.mp hc with hc | hc
      · exact h.closed c hc
      · obtain ⟨fd, rfl⟩ := Int.eq_ofNat_of_zero_le hold
        obtain rfl := List.mem_singleton.mp hc
        exact decide_eq_true (h.opened hid)
    · exact h.closed c hc

/-- What the members are made of. -/
inductive Basic : Descriptors → Descriptors → Prop
  | construct {w : Descriptors} {id : Nat} {fd : Int} (hid : w.objects id = none)
      (hfd : ∀ n : Nat, fd = n → n ∈ w.held) : Basic w ((w.handOver fd).store id (some fd))
  | gone {w : Descriptors} {id : Nat} {old : Int} (hid : w.objects id = some old) (errno : Int32) :
      Basic w (w.gone id old errno)
  | release {w : Descriptors} {id : Nat} {fd : Int} (hid : w.objects id = some fd) :
      Basic w ((w.store id (some (-1))).takeOver fd)

/-- How often a descriptor was closed by an object, and once more where it is open. -/
def settled (w : Descriptors) (fd : Nat) : Nat :=
  (w.closed.map Prod.fst).count fd + if fd ∈ w.opened then 1 else 0

theorem settled_gone (h : Owned w) {id : Nat} {old : Int} (hid : w.objects id = some old)
    (errno : Int32) (fd : Nat) : (w.gone id old errno).settled fd = w.settled fd := by
  unfold Descriptors.gone
  split_ifs with hold
  · obtain ⟨n, rfl⟩ := Int.eq_ofNat_of_zero_le hold
    have hopen := (h.opened hid).1
    simp only [settled, close, closed_store, opened_store, List.map_append, List.map_cons, List.map_nil,
      List.count_append, Finset.mem_erase, Int.toNat_natCast]
    by_cases heq : fd = n
    · subst heq
      simp [hopen]
    · simp [heq, Ne.symm heq]
  · rfl

theorem Owned.basic (h : Owned w) (hb : Basic w w') :
    Owned w' ∧ (∀ fd, w'.settled fd = w.settled fd) ∧ w'.errno = w.errno := by
  cases hb with
  | construct hid hfd => exact ⟨h.construct hid hfd, fun _ => rfl, rfl⟩
  | gone hid errno =>
    refine ⟨h.gone hid errno, settled_gone h hid errno, ?_⟩
    unfold Descriptors.gone
    split_ifs <;> rfl
  | release hid => exact ⟨h.release hid, fun _ => rfl, rfl⟩

theorem Owned.basics (h : Owned w) (hb : Relation.ReflTransGen Basic w w') :
    Owned w' ∧ (∀ fd, w'.settled fd = w.settled fd) ∧ w'.errno = w.errno := by
  induction hb with
  | refl => exact ⟨h, fun _ => rfl, rfl⟩
  | tail _ hb ih =>
    obtain ⟨hmid, hsettled, herrno⟩ := ih
    obtain ⟨hnext, hsettled', herrno'⟩ := hmid.basic hb
    exact ⟨hnext, fun fd => (hsettled' fd).trans (hsettled fd), herrno'.trans herrno⟩

/-! ## Members as basic steps -/

theorem store_store (id : Nat) (fd fd' : Option Int) : (w.store id fd).store id fd' = w.store id fd' := by
  unfold store
  simp

theorem handOver_takeOver {fd : Int} (hfd : ∀ n : Nat, fd = n → n ∉ w.held) :
    (w.takeOver fd).handOver fd = w := by
  have hheld : ((w.takeOver fd).handOver fd).held = w.held := by
    ext n
    rw [mem_handOver, mem_takeOver]
    constructor
    · rintro ⟨hn | hn, hne⟩
      · exact hn
      · exact absurd hn hne
    · exact fun hn => ⟨.inl hn, fun heq => hfd n heq.symm hn⟩
  exact congrArg (fun held => { w with held }) hheld

theorem reset_eq {id : Nat} {old : Int} (hid : w.objects id = some old) (fd : Int) (errno : Int32) :
    w.reset id fd errno = some ((w.gone id old errno).store id (some fd)) := by
  rw [reset, hid, Option.map_some, Descriptors.gone]
  split_ifs
  · simp only [store, close, Function.update_idem]
    rfl
  · rw [store_store]

theorem destroy_eq {id : Nat} {old : Int} (hid : w.objects id = some old) (errno : Int32) :
    w.destroy id errno = some (w.gone id old errno) := by
  rw [destroy, reset_eq hid, Option.map_some, store_store, Descriptors.gone]
  split_ifs
  · simp [close, store]
  · rw [store_store]

theorem handOver_gone (h : Owned w) {id : Nat} {old : Int} (hid : w.objects id = some old) (fd : Int)
    (errno : Int32) : (w.handOver fd).gone id old errno = (w.gone id old errno).handOver fd := by
  unfold Descriptors.gone
  split_ifs with hold
  · obtain ⟨n, rfl⟩ := Int.eq_ofNat_of_zero_le hold
    have hheld := (h.opened hid).2
    simp [close, handOver, store, hheld]
  · rfl

theorem Owned.reset (h : Owned w) {id : Nat} {old : Int} (hid : w.objects id = some old) {fd : Int}
    (hfd : ∀ n : Nat, fd = n → n ∈ w.held) {errno : Int32}
    (hs : (w.handOver fd).reset id fd errno = some w') : Relation.ReflTransGen Basic w w' := by
  rw [reset_eq (w := w.handOver fd) hid, handOver_gone h hid] at hs
  obtain rfl := Option.some.inj hs
  have hgone : Basic w (w.gone id old errno) := .gone hid errno
  have hnew : (w.gone id old errno).objects id = none := by rw [objects_gone, if_pos rfl]
  refine .tail (.single hgone) (.construct hnew fun n hn => ?_)
  rw [held_gone]
  exact hfd n hn

/-- What `Release` returns is held until it is handed over. -/
theorem Owned.handed (h : Owned w) {id : Nat} {fd : Int} (hid : w.objects id = some fd) :
    Basic w ((w.store id (some (-1))).takeOver fd) ∧
      (∀ n : Nat, fd = n → n ∈ ((w.store id (some (-1))).takeOver fd).held) ∧
      ((w.store id (some (-1))).takeOver fd).handOver fd = w.store id (some (-1)) := by
  refine ⟨.release hid, fun n hn => (mem_takeOver _).mpr (.inr hn.symm), handOver_takeOver ?_⟩
  rintro n rfl
  exact (h.opened hid).2

/-- Where objects are given what other code has, a call is made of basic steps. -/
theorem Owned.step_cases (h : Owned w) {e : Event} (hs : step w e = some w') (hl : Linear w e) :
    (∃ fd errno, e = .opens fd errno ∧ fd ∉ w.opened ∧
      w' = { w with opened := insert fd w.opened, held := insert fd w.held, errno }) ∨
    (∃ fd errno, e = .closes fd errno ∧ fd ∈ w.held ∧
      w' = { w with opened := w.opened.erase fd, held := w.held.erase fd, errno }) ∨
    ((∀ fd errno, e ≠ .opens fd errno ∧ e ≠ .closes fd errno) ∧ Relation.ReflTransGen Basic w w') := by
  cases e with
  | opens fd errno =>
    simp only [step, Option.ite_none_left_eq_some, Option.some.injEq] at hs
    exact .inl ⟨fd, errno, rfl, hs.1, hs.2.symm⟩
  | closes fd errno =>
    simp only [step, Option.ite_none_right_eq_some, Option.some.injEq] at hs
    exact .inr (.inl ⟨fd, errno, rfl, hs.1, hs.2.symm⟩)
  | construct id fd =>
    refine .inr (.inr ⟨by simp, ?_⟩)
    simp only [step, Descriptors.construct, objects_handOver] at hs
    split at hs
    · next hid =>
      obtain rfl := Option.some.inj hs
      exact .single (.construct hid fun n hn => hl n (congrArg some hn))
    · cases hs
  | destroy id errno =>
    refine .inr (.inr ⟨by simp, ?_⟩)
    change w.destroy id errno = some w' at hs
    cases hid : w.objects id with
    | none => simp [destroy, Descriptors.reset, hid] at hs
    | some old =>
      obtain rfl := Option.some.inj ((destroy_eq hid errno).symm.trans hs)
      exact .single (.gone hid errno)
  | moveConstruct id other =>
    refine .inr (.inr ⟨by simp, ?_⟩)
    obtain ⟨⟨fd, v⟩, hrelease, hconstruct⟩ := Option.bind_eq_some_iff.mp hs
    obtain ⟨old, hother, heq⟩ := Option.map_eq_some_iff.mp hrelease
    cases heq
    obtain ⟨hbasic, hheld, hback⟩ := h.handed hother
    simp only [Descriptors.construct] at hconstruct
    split at hconstruct
    · next hid =>
      rw [← hback] at hconstruct
      obtain rfl := Option.some.inj hconstruct
      exact .tail (.single hbasic) (.construct hid hheld)
    · cases hconstruct
  | moveAssign id other errno =>
    refine .inr (.inr ⟨by simp, ?_⟩)
    simp only [step, moveAssign] at hs
    split_ifs at hs with heq
    · obtain ⟨_, -, rfl⟩ := Option.map_eq_some_iff.mp hs
      exact .refl
    · obtain ⟨⟨fd, v⟩, hrelease, hreset⟩ := Option.bind_eq_some_iff.mp hs
      obtain ⟨old, hother, heq⟩ := Option.map_eq_some_iff.mp hrelease
      cases heq
      obtain ⟨hbasic, hheld, hback⟩ := h.handed hother
      rw [← hback] at hreset
      have hmoved := (h.basic hbasic).1
      cases hid : ((w.store other (some (-1))).takeOver fd).objects id with
      | none => simp [Descriptors.reset, hid] at hreset
      | some old => exact .trans (.single hbasic) (hmoved.reset hid hheld hreset)
  | release id =>
    refine .inr (.inr ⟨by simp, ?_⟩)
    obtain ⟨⟨fd, v⟩, hrelease, rfl⟩ := Option.map_eq_some_iff.mp hs
    obtain ⟨old, hid, heq⟩ := Option.map_eq_some_iff.mp hrelease
    cases heq
    exact .single (.release hid)
  | reset id fd errno =>
    refine .inr (.inr ⟨by simp, ?_⟩)
    cases hid : w.objects id with
    | none => simp [step, Descriptors.reset, hid] at hs
    | some old => exact h.reset hid (fun n hn => hl n (congrArg some hn)) hs

/-! ## Runs -/

def Event.opensFd (fd : Nat) : Event → Bool
  | .opens fd' _ => fd' = fd
  | _ => false

def Event.closesFd (fd : Nat) : Event → Bool
  | .closes fd' _ => fd' = fd
  | _ => false

/-- What other code leaves in `errno`. -/
def Event.leaves : Event → Option Int32
  | .opens _ errno | .closes _ errno => some errno
  | _ => none

theorem Owned.step (h : Owned w) {e : Event} (hs : step w e = some w') (hl : Linear w e) :
    Owned w' ∧ (∀ fd, w'.settled fd + (e.closesFd fd).toNat = w.settled fd + (e.opensFd fd).toNat) ∧
      w'.errno = e.leaves.getD w.errno := by
  rcases h.step_cases hs hl with ⟨n, errno, rfl, hn, rfl⟩ | ⟨n, errno, rfl, hn, rfl⟩ | ⟨hother, hb⟩
  · refine ⟨h.opens hn errno, fun fd => ?_, rfl⟩
    by_cases heq : n = fd
    · subst heq
      simp [settled, Event.closesFd, Event.opensFd, hn]
    · simp [settled, Event.closesFd, Event.opensFd, heq, Ne.symm heq]
  · refine ⟨h.closes hn errno, fun fd => ?_, rfl⟩
    by_cases heq : n = fd
    · subst heq
      simp [settled, Event.closesFd, Event.opensFd, h.held hn]
    · simp [settled, Event.closesFd, Event.opensFd, heq, Ne.symm heq]
  · obtain ⟨howned, hsettled, herrno⟩ := h.basics hb
    cases e with
    | opens fd errno => exact absurd rfl (hother fd errno).1
    | closes fd errno => exact absurd rfl (hother fd errno).2
    | _ => exact ⟨howned, hsettled, herrno⟩

/-- An object that is given what other code does not have breaks the ownership. -/
theorem Owned.linear (h : Owned w) {e : Event} (hs : Descriptors.step w e = some w') (h' : Owned w') :
    Linear w e := by
  intro fd hfd
  by_contra hheld
  -- whoever else owns the descriptor still does
  have hother {id : Nat} (hid : w'.objects id = some (fd : Int)) (hne : w.objects id ≠ some (fd : Int))
      (hothers : ∀ j, j ≠ id → w'.objects j = w.objects j) (hopen : fd ∈ w.opened) : False := by
    obtain ⟨j, hj⟩ := (h.covered fd hopen).resolve_left hheld
    have hj' : j ≠ id := by
      rintro rfl
      exact hne hj
    exact hj' (h'.unique ((hothers j hj').trans hj) hid)
  cases e with
  | construct id _ =>
    obtain rfl := Option.some.inj hfd
    simp only [Descriptors.step, Descriptors.construct, objects_handOver] at hs
    split at hs
    · next hid =>
      obtain rfl := Option.some.inj hs
      have hnew : ((w.handOver fd).store id (some (fd : Int))).objects id = some (fd : Int) := by simp
      have hopen := (h'.opened hnew).1
      exact hother hnew (by simp [hid]) (fun j hj => by simp [hj]) hopen
    · cases hs
  | reset id _ errno =>
    obtain rfl := Option.some.inj hfd
    change (w.handOver fd).reset id fd errno = some w' at hs
    cases hid : w.objects id with
    | none => simp [Descriptors.reset, hid] at hs
    | some old =>
      obtain rfl := Option.some.inj ((reset_eq (w := w.handOver fd) hid fd errno).symm.trans hs)
      have hnew : (((w.handOver fd).gone id old errno).store id (some (fd : Int))).objects id =
          some (fd : Int) := by simp
      obtain ⟨hopen, hne⟩ := mem_opened_gone.mp (h'.opened hnew).1
      refine hother hnew (fun heq => hne ?_) (fun j hj => by simp [hj]) hopen
      exact Option.some.inj (heq.symm.trans hid)
  | _ => cases hfd

/-- How often other code opens and closes a descriptor. -/
def openings (fd : Nat) (es : List Event) : Nat := es.countP (Event.opensFd fd)

def closings (fd : Nat) (es : List Event) : Nat := es.countP (Event.closesFd fd)

theorem owned_run {es : List Event} (h : Run (Where (StepsOf step) Linear) {} es w) :
    Owned w ∧ (∀ fd, w.settled fd + closings fd es = openings fd es) ∧
      w.errno = (es.filterMap Event.leaves).getLast?.getD 0 := by
  induction h with
  | nil => exact ⟨owned_empty, fun fd => rfl, rfl⟩
  | @snoc es v e w _ hstep ih =>
    obtain ⟨howned, hsettled, herrno⟩ := ih
    obtain ⟨hnext, hsettled', herrno'⟩ := howned.step hstep.2 hstep.1
    have hcount (p : Event → Bool) : (es ++ [e]).countP p = es.countP p + (p e).toNat := by
      rw [List.countP_append, List.countP_singleton]
      cases p e <;> rfl
    refine ⟨hnext, fun fd => ?_, ?_⟩
    · have hbefore := hsettled fd
      have hafter := hsettled' fd
      unfold closings openings at hbefore
      rw [closings, openings, hcount, hcount]
      omega
    · rw [herrno', herrno, List.filterMap_append]
      cases hleaves : e.leaves <;> simp [hleaves]

/-- Descriptors have one owner each for exactly as long as objects are given what other code has.
Until then a close never hits a descriptor that is not the object's own, whatever is opened is
closed once or open, `errno` is what other code left, and without owners nothing else is open. -/
theorem owners_hold (es : List Event) (w : Descriptors) :
    (Run (Where (StepsOf step) Linear) {} es w ↔
      Run (fun v e v' => StepsOf step v e v' ∧ Owned v') {} es w) ∧
    (Run (Where (StepsOf step) Linear) {} es w → Owned w ∧
      (∀ fd, openings fd es = closings fd es + (w.closed.map Prod.fst).count fd +
        if fd ∈ w.opened then 1 else 0) ∧
      w.errno = (es.filterMap Event.leaves).getLast?.getD 0 ∧
      ((∀ id (fd : Nat), w.objects id ≠ some (fd : Int)) → w.opened = w.held)) := by
  refine ⟨⟨fun h => ?_, fun h => ?_⟩, fun h => ?_⟩
  · induction h with
    | nil => exact .nil
    | snoc hr hstep ih =>
      exact ih.snoc ⟨hstep.2, ((owned_run hr).1.step hstep.2 hstep.1).1⟩
  · have hrun : Run (Where (StepsOf step) Linear) {} es w ∧ Owned w := by
      induction h with
      | nil => exact ⟨.nil, owned_empty⟩
      | snoc _ hstep ih =>
        obtain ⟨hr, howned⟩ := ih
        exact ⟨hr.snoc ⟨howned.linear hstep.1 hstep.2, hstep.1⟩, hstep.2⟩
    exact hrun.1
  · obtain ⟨howned, hsettled, herrno⟩ := owned_run h
    refine ⟨howned, fun fd => ?_, herrno, fun hnone => ?_⟩
    · have hfd := hsettled fd
      unfold settled at hfd
      omega
    · apply Finset.Subset.antisymm _ howned.held
      intro fd hfd
      rcases howned.covered fd hfd with hheld | ⟨id, hid⟩
      · exact hheld
      · exact absurd hid (hnone id fd)

/-- A socket that is handed to an object, moved and closed. -/
theorem owners_hold_moved : ∃ w,
    Run (Where (StepsOf step) Linear) {} [.opens 3 0, .construct 0 3, .moveConstruct 1 0, .destroy 1 9] w ∧
      Owned w ∧ w.errno = 0 := by
  let opened : Descriptors := { opened := insert 3 ∅, held := insert 3 ∅ }
  let constructed := (opened.handOver 3).store 0 (some 3)
  let moved := (constructed.store 0 (some (-1))).store 1 (some 3)
  have hopens : StepsOf step {} (.opens 3 0) opened := rfl
  have hconstruct : StepsOf step opened (.construct 0 3) constructed := rfl
  have hmove : StepsOf step constructed (.moveConstruct 1 0) moved := rfl
  have hdestroy : StepsOf step moved (.destroy 1 9) (moved.gone 1 3 9) := destroy_eq rfl 9
  have hlinear : Linear opened (.construct 0 3) := by
    intro fd hfd
    obtain rfl : (3 : Nat) = fd := Int.ofNat.inj (Option.some.inj hfd)
    exact Finset.mem_insert_self _ _
  have hopened : Run (Where (StepsOf Descriptors.step) Linear) {} [.opens 3 0] opened :=
    .single ⟨linear_of_none rfl, hopens⟩
  have hrun := ((hopened.snoc ⟨hlinear, hconstruct⟩).snoc ⟨linear_of_none rfl, hmove⟩).snoc
    ⟨linear_of_none rfl, hdestroy⟩
  have h := (owners_hold _ _).2 hrun
  exact ⟨_, hrun, h.1, h.2.2.1⟩

end Descriptors

end WebHtop.Common
