import WebHtop.Server.Collectors.MetricsCollector

/-!
# The sampling worker

The worker thread of `ServerApp::Run`: collect, publish, advance the deadline by an interval and
catch up when it has passed. What Collect returns, whether Publish does, and the readings of the
clock are inputs of an iteration. Deadlines are exact integers of nanoseconds; they stay within
an interval of the readings, which fit 64 bits with room to spare.
-/

namespace WebHtop.Server

open WebHtop.Common WebHtop.Server.Collectors

variable {D : Type}

/-- The variables of the loop, and the snapshots that have been published. -/
structure Worker (D : Type) where
  next : Int
  sequence : UInt64 := 0
  skipped : UInt64 := 0
  published : List (SystemSnapshot D) := []

/-- One iteration as the worker sees it; `collected` is `none` where Collect throws. -/
structure Turn (D : Type) where
  begun : TimePoint
  collected : Option (SystemSnapshot D)
  stopRequested : Bool
  publishes : Bool
  now : TimePoint

namespace Worker

/-- The body of the try block; `none` is the break. -/
def sample (instanceId : Bytes) (w : Worker D) (t : Turn D) : Option (Worker D) :=
  match t.collected with
  | none => some w
  | some snapshot =>
    if t.stopRequested then none
    else
      let sequence := w.sequence + 1
      let telemetry := { snapshot.telemetry with sequence, instanceId, skippedTicks := w.skipped }
      some
        { w with
          sequence
          published := if t.publishes then w.published ++ [{ snapshot with telemetry }] else w.published }

/-- The deadline after an iteration. -/
def advance (interval : Int) (w : Worker D) (now : TimePoint) : Worker D :=
  let next := w.next + interval
  if next ≤ now.val then
    let missed := (now.val - next).tdiv interval + 1
    { w with skipped := w.skipped + UInt64.ofNat missed.toNat, next := next + missed * interval }
  else { w with next }

def turn (instanceId : Bytes) (interval : Int) (w : Worker D) (t : Turn D) : Option (Worker D) :=
  (sample instanceId w t).map fun w => advance interval w t.now

def run (instanceId : Bytes) (interval : Int) : Worker D → List (Turn D) → Option (Worker D)
  | w, [] => some w
  | w, t :: ts => (turn instanceId interval w t).bind fun w => run instanceId interval w ts

/-- The wait ends at the deadline or later, and the clock does not go back. -/
def Timely (instanceId : Bytes) (interval : Int) : Worker D → List (Turn D) → Prop
  | _, [] => True
  | w, t :: ts => w.next ≤ t.begun.val ∧ t.begun.val ≤ t.now.val ∧
    ∀ w', turn instanceId interval w t = some w' → Timely instanceId interval w' ts

/-! ## One iteration -/

variable {instanceId : Bytes} {interval : Int} {w w' : Worker D} {t : Turn D}

theorem sample_next (h : sample instanceId w t = some w') : w'.next = w.next ∧ w'.skipped = w.skipped := by
  unfold sample at h
  split at h
  · obtain rfl := Option.some.inj h
    exact ⟨rfl, rfl⟩
  · split at h
    · cases h
    · obtain rfl := Option.some.inj h
      exact ⟨rfl, rfl⟩

/-- The deadline is so many intervals behind the start: one for each of `k` iterations, and one
for each tick counted as skipped. -/
def OnGrid (start interval : Int) (k : Nat) (w : Worker D) : Prop :=
  w.next = start + (k + w.skipped.toNat : Nat) * interval

/-- The catch-up lands on the first grid point behind the reading. -/
theorem advance_spec (hi : 0 < interval) (start : TimePoint) {k : Nat} (h : OnGrid start.val interval k w)
    (now : TimePoint) (hle : w.next ≤ now.val) :
    OnGrid start.val interval (k + 1) (advance interval w now) ∧
      now.val < (advance interval w now).next ∧
      (advance interval w now).next ≤ now.val + interval ∧
      ∃ missed : Nat, (advance interval w now).skipped.toNat = w.skipped.toNat + missed ∧
        (advance interval w now).next = w.next + (1 + missed : Nat) * interval := by
  obtain ⟨hstart, -⟩ := start.property
  obtain ⟨-, hnow⟩ := now.property
  unfold OnGrid at h ⊢
  unfold advance
  dsimp only
  split
  · rename_i hpassed
    have hdiv : (now.val - (w.next + interval)).tdiv interval =
        (now.val - (w.next + interval)) / interval := Int.tdiv_eq_ediv_of_nonneg (by omega)
    have hquotient : 0 ≤ (now.val - (w.next + interval)) / interval :=
      Int.ediv_nonneg (by omega) hi.le
    obtain ⟨q, hq⟩ := Int.eq_ofNat_of_zero_le hquotient
    have hlow := Int.ediv_mul_le (now.val - (w.next + interval)) hi.ne'
    have hhigh := Int.lt_ediv_add_one_mul_self (now.val - (w.next + interval)) hi
    rw [hdiv, hq] at *
    have hmissed : ((q : Int) + 1).toNat = q + 1 := by omega
    have hlanding : w.next + interval + ((q : Int) + 1) * interval =
        start.val + ((k + w.skipped.toNat + (q + 2) : Nat) : Int) * interval := by
      rw [h]
      push_cast
      ring
    -- The counter does not wrap: each tick is at least a nanosecond of the readings.
    have hbound : ((k + w.skipped.toNat + (q + 1) : Nat) : Int) * interval ≤ now.val - start.val := by
      have : ((k + w.skipped.toNat + (q + 2) : Nat) : Int) * interval =
          ((k + w.skipped.toNat + (q + 1) : Nat) : Int) * interval + interval := by
        push_cast
        ring
      linarith
    have hticks : ((k + w.skipped.toNat + (q + 1) : Nat) : Int) < 2 ^ 63 := by
      nlinarith
    have hskipped : (w.skipped + UInt64.ofNat (q + 1)).toNat = w.skipped.toNat + (q + 1) := by
      have hcast : ((w.skipped.toNat + (q + 1) : Nat) : Int) < 2 ^ 63 := by
        push_cast at hticks ⊢
        omega
      have hlt : w.skipped.toNat + (q + 1) < 2 ^ 63 := by exact_mod_cast hcast
      rw [UInt64.toNat_add, UInt64.toNat_ofNat', Nat.mod_eq_of_lt (a := q + 1) (by omega),
        Nat.mod_eq_of_lt (by omega)]
    rw [hmissed]
    refine ⟨?_, ?_, ?_, q + 1, hskipped, ?_⟩
    · have hindex : k + 1 + (w.skipped.toNat + (q + 1)) = k + w.skipped.toNat + (q + 2) := by omega
      rw [hskipped, hindex]
      exact hlanding
    · linarith
    · linarith
    · push_cast
      ring
  · rename_i hahead
    refine ⟨?_, by linarith, by linarith, 0, rfl, by push_cast; ring⟩
    rw [h]
    push_cast
    ring

/-! ## Runs -/

theorem turn_spec (hi : 0 < interval) (start : TimePoint) {k : Nat} (h : OnGrid start.val interval k w)
    (hturn : turn instanceId interval w t = some w') (hbegun : w.next ≤ t.begun.val)
    (hnow : t.begun.val ≤ t.now.val) :
    OnGrid start.val interval (k + 1) w' ∧ t.now.val < w'.next ∧ w'.next ≤ t.now.val + interval ∧
      ∃ missed : Nat, w'.skipped.toNat = w.skipped.toNat + missed ∧
        w'.next = w.next + (1 + missed : Nat) * interval := by
  obtain ⟨v, hv, rfl⟩ := Option.map_eq_some_iff.mp hturn
  obtain ⟨hnext, hskipped⟩ := sample_next hv
  have hv' : OnGrid start.val interval k v := by
    unfold OnGrid at h ⊢
    rw [hnext, hskipped]
    exact h
  have hspec := advance_spec hi start hv' t.now (by rw [hnext]; exact hbegun.trans hnow)
  rwa [hnext, hskipped] at hspec

/-- The grid points that the iterations dispose of, in order; `true` marks the slot of an
iteration, `false` a point that it adds to the skipped ones. -/
def timeline (instanceId : Bytes) (interval : Int) : Worker D → List (Turn D) → List (Int × Bool)
  | _, [] => []
  | w, t :: ts =>
    match turn instanceId interval w t with
    | none => []
    | some w' =>
      (w.next, true) ::
        ((List.range (w'.skipped.toNat - w.skipped.toNat)).map fun i =>
          (w.next + (i + 1 : Nat) * interval, false)) ++ timeline instanceId interval w' ts

/-- The grid points before the deadline, from a point on. -/
def grid (start interval : Int) (count : Nat) : List Int :=
  (List.range count).map fun j => start + (j : Nat) * interval

theorem grid_append (start interval : Int) (m n : Nat) :
    grid start interval (m + n) = grid start interval m ++ grid (start + m * interval) interval n := by
  unfold grid
  rw [List.range_add, List.map_append, List.map_map]
  congr 1
  refine List.map_congr_left fun j _ => ?_
  simp only [Function.comp_apply]
  push_cast
  ring

theorem grid_succ (start interval : Int) (m : Nat) :
    grid start interval (1 + m) =
      start :: (List.range m).map fun i => start + (i + 1 : Nat) * interval := by
  rw [Nat.add_comm, grid, List.range_succ_eq_map, List.map_cons, List.map_map]
  simp [Function.comp_def]

/-- The loop keeps to its grid: every point before the deadline is the slot of one iteration or
counted once as skipped, and the deadline is the first point behind the last reading. -/
structure Kept (start interval : Int) (k : Nat) (w : Worker D) (visits : List (Int × Bool)) : Prop where
  deadline : w.next = start + (k + w.skipped.toNat : Nat) * interval
  points : visits.map Prod.fst = grid start interval (k + w.skipped.toNat)
  slots : visits.countP (fun v => v.2) = k
  skipped : visits.countP (fun v => !v.2) = w.skipped.toNat

theorem run_spec (hi : 0 < interval) (start : TimePoint) (ts : List (Turn D)) :
    ∀ {k : Nat} {w w' : Worker D}, OnGrid start.val interval k w →
      run instanceId interval w ts = some w' → Timely instanceId interval w ts →
      OnGrid start.val interval (k + ts.length) w' ∧ w.skipped.toNat ≤ w'.skipped.toNat ∧
        (timeline instanceId interval w ts).map Prod.fst =
          grid w.next interval (ts.length + (w'.skipped.toNat - w.skipped.toNat)) ∧
        (timeline instanceId interval w ts).countP (fun v => v.2) = ts.length ∧
        (timeline instanceId interval w ts).countP (fun v => !v.2) =
          w'.skipped.toNat - w.skipped.toNat ∧
        ∀ t ∈ ts.getLast?, t.now.val < w'.next ∧ w'.next ≤ t.now.val + interval := by
  induction ts with
  | nil =>
    intro k w w' h hrun _
    obtain rfl := Option.some.inj hrun
    refine ⟨h, le_refl _, ?_, rfl, ?_, fun t ht => by cases ht⟩
    · simp [timeline, grid]
    · simp [timeline]
  | cons t ts ih =>
    intro k w w' h hrun htimely
    obtain ⟨v, hturn, hrun⟩ := Option.bind_eq_some_iff.mp hrun
    obtain ⟨hbegun, hnow, htimely⟩ := htimely
    obtain ⟨hgrid, hlow, hhigh, missed, hskipped, hnext⟩ := turn_spec hi start h hturn hbegun hnow
    obtain ⟨hgrid', hle, hpoints, hslots, hcount, hlast⟩ := ih hgrid hrun (htimely v hturn)
    have hmissed : v.skipped.toNat - w.skipped.toNat = missed := by omega
    have hline : timeline instanceId interval w (t :: ts) =
        ((w.next, true) :: (List.range missed).map fun i => (w.next + (i + 1 : Nat) * interval, false)) ++
          timeline instanceId interval v ts := by
      rw [timeline, hturn]
      dsimp only
      rw [hmissed]
    refine ⟨?_, by omega, ?_, ?_, ?_, ?_⟩
    · rw [List.length_cons, Nat.add_comm ts.length, ← Nat.add_assoc]
      exact hgrid'
    · have hsum : (t :: ts).length + (w'.skipped.toNat - w.skipped.toNat) =
          (1 + missed) + (ts.length + (w'.skipped.toNat - v.skipped.toNat)) := by
        rw [List.length_cons]
        omega
      rw [hline, hsum, grid_append, ← hnext, ← hpoints, grid_succ, List.map_append, List.map_cons,
        List.map_map]
      rfl
    · rw [hline, List.countP_append, hslots, List.countP_cons, List.countP_map]
      simp [Function.comp_def, Nat.add_comm]
    · rw [hline, List.countP_append, hcount, List.countP_cons, List.countP_map]
      simp [Function.comp_def]
      omega
    · intro last hl
      cases ts with
      | nil =>
        obtain rfl := Option.some.inj hrun
        obtain rfl := Option.some.inj hl
        exact ⟨hlow, hhigh⟩
      | cons t' ts => exact hlast last (by rwa [List.getLast?_cons_cons] at hl)

/-- After any number of iterations the deadline is on the grid, behind the last reading and within
an interval of it. -/
theorem schedule_kept (hi : 0 < interval) (start : TimePoint) (ts : List (Turn D)) {w : Worker D}
    (hrun : run instanceId interval { next := start.val } ts = some w)
    (htimely : Timely instanceId interval { next := start.val } ts) :
    Kept start.val interval ts.length w (timeline instanceId interval { next := start.val } ts) ∧
      ∀ t ∈ ts.getLast?, t.now.val < w.next ∧ w.next ≤ t.now.val + interval := by
  have hstart : OnGrid start.val interval 0 ({ next := start.val } : Worker D) := by simp [OnGrid]
  obtain ⟨hgrid, -, hpoints, hslots, hcount, hlast⟩ := run_spec hi start ts hstart hrun htimely
  rw [OnGrid, Nat.zero_add] at hgrid
  exact ⟨⟨hgrid, hpoints, hslots, hcount⟩, hlast⟩

/-- An iteration over those nanoseconds whose collection fails. -/
def failing (begun now : Fin (2 ^ 62)) : Turn ℚ :=
  { begun := ⟨begun, by omega⟩, collected := none, stopRequested := false, publishes := false
    now := ⟨now, by omega⟩ }

/-- The first iteration ends exactly on a grid point, which counts as skipped. -/
theorem schedule_kept_boundary :
    Kept 0 10 2 ({ next := 40, skipped := 2 } : Worker ℚ) [(0, true), (10, false), (20, false), (30, true)] ∧
      ∀ t ∈ [failing 0 20, failing 30 31].getLast?, t.now.val < 40 ∧ 40 ≤ t.now.val + 10 := by
  have hi : (0 : ℤ) < 10 := by decide
  have hrun : run [] 10 { next := 0 } [failing 0 20, failing 30 31] =
      some ({ next := 40, skipped := 2 } : Worker ℚ) := rfl
  refine schedule_kept hi ⟨0, by decide⟩ [failing 0 20, failing 30 31] hrun ?_
  refine ⟨by decide, by decide, fun w' hw' => ?_⟩
  obtain rfl := Option.some.inj hw'
  exact ⟨by decide, by decide, fun _ _ => trivial⟩

end Worker

end WebHtop.Server
