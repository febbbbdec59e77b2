import WebHtop.Client.StreamRuns

/-!
# The pauses between connections

`Disconnect` draws a pause that doubles with each loss and starts afresh with a snapshot; `Tick`
opens no connection before the pause is over. The marks of a run are what an observer sees of it, with
the readings of the clock: openings, snapshots and losses.
-/

namespace WebHtop.Client

open WebHtop.Lib WebHtop.Common

variable {D : Type} [Double D]

namespace StreamConnection

/-! ## Marks -/

inductive Mark where
  | opened (now : Int)
  | received
  | lost (now : Int)
  deriving DecidableEq

def Event.now : Event → Int
  | .tick now _ _ => now
  | .handle _ _ now _ _ => now

def Event.pause : Event → Pause
  | .tick _ _ pause => pause
  | .handle _ _ _ _ pause => pause

/-- An action as a mark. Disconnect reads the clock after it has closed the socket. -/
def markOf (e : Event) : Action D → Option Mark
  | .opened _ => some (.opened e.now)
  | .received _ => none
  | .handed _ => some .received
  | .closed _ => some (.lost e.pause.now)

/-- What a step shows: its actions, and then an address that was tried and gave no connection. -/
def marksOf (c : StreamConnection D) (e : Event) (c' : StreamConnection D) : List Mark :=
  (c'.log.drop c.log.length).filterMap (markOf e) ++
    if c'.socket = none ∧ c'.addressIndex ≠ c.addressIndex then [.lost e.pause.now] else []

def marks : StreamConnection D → List Event → List Mark := gather step marksOf

/-- The losses in a row, up to the last mark. -/
def failures (ms : List Mark) : Nat :=
  ms.foldl
    (fun n m =>
      match m with
      | .opened _ => n
      | .received => 0
      | .lost _ => n + 1)
    0

/-- All losses. -/
def losses (ms : List Mark) : Nat :=
  (ms.filter fun m =>
    match m with
    | .lost _ => true
    | _ => false).length

@[simp] theorem failures_nil : failures [] = 0 := rfl

@[simp] theorem failures_opened (ms : List Mark) (now : Int) :
    failures (ms ++ [.opened now]) = failures ms := by
  simp [failures]

@[simp] theorem failures_received (ms : List Mark) : failures (ms ++ [.received]) = 0 := by
  simp [failures]

@[simp] theorem failures_lost (ms : List Mark) (now : Int) :
    failures (ms ++ [.lost now]) = failures ms + 1 := by
  simp [failures]

@[simp] theorem losses_append (ms ms' : List Mark) : losses (ms ++ ms') = losses ms + losses ms' := by
  simp [losses]

/-! ## What a step does -/

/-- The actions of a connection that stays open. -/
def Arrives : Action D → Prop
  | .received _ => True
  | .handed _ => True
  | _ => False

/-- A snapshot starts the attempts afresh. -/
def restart (n : Nat) (added : List (Action D)) : Nat :=
  added.foldl
    (fun n a =>
      match a with
      | .handed _ => 0
      | _ => n)
    n

variable {c c' c'' : StreamConnection D}

/-- Nothing is lost, and snapshots may be handed on. -/
structure Receives (c c' : StreamConnection D) : Prop where
  socket : c'.socket = c.socket
  retry : c'.retry = c.retry
  reconnects : c'.reconnects = c.reconnects
  addressIndex : c'.addressIndex = c.addressIndex
  gained : ∃ added, c'.log = c.log ++ added ∧ (∀ a ∈ added, Arrives a) ∧
    c'.attempts = restart c.attempts added

omit [Double D] in
/-- The log and the attempts stay. -/
theorem Receives.quiet (hsocket : c'.socket = c.socket) (hretry : c'.retry = c.retry)
    (hreconnects : c'.reconnects = c.reconnects) (haddress : c'.addressIndex = c.addressIndex)
    (hlog : c'.log = c.log) (hattempts : c'.attempts = c.attempts) : Receives c c' :=
  ⟨hsocket, hretry, hreconnects, haddress, [], hlog.trans (List.append_nil _).symm,
    List.forall_mem_nil _, hattempts⟩

omit [Double D] in
theorem Receives.refl (c : StreamConnection D) : Receives c c := .quiet rfl rfl rfl rfl rfl rfl

omit [Double D] in
theorem Receives.trans (h : Receives c c') (h' : Receives c' c'') : Receives c c'' := by
  obtain ⟨added, hlog, harrives, hattempts⟩ := h.gained
  obtain ⟨added', hlog', harrives', hattempts'⟩ := h'.gained
  refine ⟨h'.socket.trans h.socket, h'.retry.trans h.retry, h'.reconnects.trans h.reconnects,
    h'.addressIndex.trans h.addressIndex, added ++ added', ?_,
    List.forall_mem_append.mpr ⟨harrives, harrives'⟩, ?_⟩
  · rw [hlog', hlog, List.append_assoc]
  · rw [hattempts', hattempts, restart, restart, restart, List.foldl_append]

theorem takeChunk_receives (readings : Readings) (pause : Pause) (fuel : Nat) (bytes : Bytes)
    {going : Bool} (h : takeChunk readings pause fuel c bytes = some (going, c')) :
    ∃ c₁, Receives c c₁ ∧
      (going = true ∧ c' = c₁ ∨ going = false ∧ ∃ reason, c' = c₁.disconnect reason pause) := by
  induction fuel generalizing c bytes with
  | zero =>
      cases bytes with
      | nil =>
          obtain ⟨rfl, rfl⟩ := Prod.mk.inj (Option.some.inj h)
          exact ⟨c, .refl c, .inl ⟨rfl, rfl⟩⟩
      | cons b bytes => cases h
  | succ fuel ih =>
      cases bytes with
      | nil =>
          obtain ⟨rfl, rfl⟩ := Prod.mk.inj (Option.some.inj h)
          exact ⟨c, .refl c, .inl ⟨rfl, rfl⟩⟩
      | cons b bytes =>
          have henter : Receives c (c.enterFrame (readings.frameStarted (bytes.length + 1))) := by
            unfold enterFrame
            split <;> exact .quiet rfl rfl rfl rfl rfl rfl
          simp only [takeChunk] at h
          split at h
          · obtain ⟨rfl, rfl⟩ := Prod.mk.inj (Option.some.inj h)
            exact ⟨_, henter, .inr ⟨rfl, _, rfl⟩⟩
          · rename_i consumed decoder _
            have hfed : Receives c { c.enterFrame (readings.frameStarted (bytes.length + 1)) with
                decoder := decoder } := henter.trans (.quiet rfl rfl rfl rfl rfl rfl)
            split at h
            · split at h
              · obtain ⟨rfl, rfl⟩ := Prod.mk.inj (Option.some.inj h)
                exact ⟨_, hfed, .inr ⟨rfl, _, rfl⟩⟩
              · rename_i snapshot _
                obtain ⟨c₁, hc₁, hend⟩ := ih _ h
                refine ⟨c₁, hfed.trans (Receives.trans ?_ hc₁), hend⟩
                exact ⟨rfl, rfl, rfl, rfl, [.handed snapshot], rfl,
                  List.forall_mem_singleton.mpr trivial, rfl⟩
            · obtain ⟨c₁, hc₁, hend⟩ := ih _ h
              exact ⟨c₁, hfed.trans hc₁, hend⟩

theorem receiveLoop_receives (pause : Pause) (reads : Nat) (results : List RecvResult)
    (h : receiveLoop pause reads results c = some c') :
    ∃ c₁, Receives c c₁ ∧ (c' = c₁ ∨ ∃ reason, c' = c₁.disconnect reason pause) := by
  induction results generalizing reads c with
  | nil =>
      cases reads <;> exact ⟨c, .refl c, .inl (Option.some.inj h).symm⟩
  | cons result results ih =>
      cases reads with
      | zero => exact ⟨c, .refl c, .inl (Option.some.inj h).symm⟩
      | succ reads =>
          match result with
          | .interrupted => exact ih reads h
          | .wouldBlock => exact ⟨c, .refl c, .inl (Option.some.inj h).symm⟩
          | .failed => exact ⟨c, .refl c, .inr ⟨_, (Option.some.inj h).symm⟩⟩
          | .data [] _ => exact ⟨c, .refl c, .inr ⟨_, (Option.some.inj h).symm⟩⟩
          | .data (b :: bytes) readings =>
              simp only [receiveLoop] at h
              have hlogged : Receives c { c with
                  bytes := c.bytes + UInt64.ofNat ((b :: bytes).take 16384).length
                  log := c.log ++ [.received ((b :: bytes).take 16384)] } :=
                ⟨rfl, rfl, rfl, rfl, _, rfl, List.forall_mem_singleton.mpr trivial, rfl⟩
              split at h
              · cases h
              · rename_i hchunk
                obtain rfl := Option.some.inj h
                obtain ⟨c₁, hc₁, hend⟩ := takeChunk_receives _ _ _ _ hchunk
                rcases hend with ⟨hgoing, -⟩ | ⟨-, hlost⟩
                · cases hgoing
                · exact ⟨c₁, hlogged.trans hc₁, .inr hlost⟩
              · rename_i hchunk
                obtain ⟨c₁, hc₁, hend⟩ := takeChunk_receives _ _ _ _ hchunk
                rcases hend with ⟨-, rfl⟩ | ⟨hgoing, -⟩
                · obtain ⟨c₂, hc₂, hend⟩ := ih reads h
                  exact ⟨c₂, (hlogged.trans hc₁).trans hc₂, hend⟩
                · cases hgoing

/-- A step: nothing is lost, the connection is lost, no connection comes about, or one is opened. -/
inductive Steps (c : StreamConnection D) (e : Event) : StreamConnection D → Prop
  | receives {c' : StreamConnection D} (h : Receives c c') (hidle : c.socket = none → c' = c) :
      Steps c e c'
  | loses {c' : StreamConnection D} (h : Receives c c') (hopen : c.socket ≠ none) (reason : Bytes) :
      Steps c e (c'.disconnect reason e.pause)
  | fails (hclosed : c.socket = none) (reason : Bytes) :
      Steps c e (disconnect { c with addressIndex := c.addressIndex + 1 } reason e.pause)
  | opens {now : Int} {result : ConnectResult} {pause : Pause} (he : e = .tick now result pause)
      (hclosed : c.socket = none) (hretry : c.retry ≤ now) (fd : Nat) (connected : Bool) :
      Steps c e (c.connect now fd connected)

omit [Double D] in
theorem Steps.idle (c : StreamConnection D) (e : Event) : Steps c e c := .receives (.refl c) fun _ => rfl

omit [Double D] in
theorem tick_steps (c : StreamConnection D) (now : Int) (result : ConnectResult) (pause : Pause) :
    Steps c (.tick now result pause) (c.tick now result pause) := by
  unfold tick
  split
  · rename_i hsome
    have hopen := Option.isSome_iff_ne_none.mp hsome
    split
    · exact .loses (.refl c) hopen _
    · split
      · exact .loses (.refl c) hopen _
      · split
        · exact .loses (.refl c) hopen _
        · exact .idle c _
  · rename_i hclosed
    rw [Option.not_isSome_iff_eq_none] at hclosed
    split
    · exact .idle c _
    · rename_i hretry
      cases result with
      | failed => exact .fails hclosed _
      | connected fd => exact .opens rfl hclosed (not_lt.mp hretry) fd true
      | connecting fd => exact .opens rfl hclosed (not_lt.mp hretry) fd false

theorem handle_steps {events : Polled} {checkConnected : Bool} {now : Int} {recvs : List RecvResult}
    {pause : Pause} (h : c.handle events checkConnected now recvs pause = some c') :
    Steps c (.handle events checkConnected now recvs pause) c' := by
  unfold handle at h
  split at h
  · exact Option.some.inj h ▸ .idle c _
  rename_i hopen
  rw [Option.isNone_iff_eq_none] at hopen
  split at h
  · exact Option.some.inj h ▸ .loses (.refl c) hopen _
  split at h
  · exact Option.some.inj h ▸ .idle c _
  split at h
  · exact Option.some.inj h ▸ .loses (.refl c) hopen _
  simp only at h
  generalize hc₀ : (if c.connected = true then c
    else { c with connected := true, status := lit "connected", lastFrame := now }) = c₀ at h
  have hestablished : Receives c c₀ := by
    rw [← hc₀]
    split <;> exact .quiet rfl rfl rfl rfl rfl rfl
  split at h
  · exact Option.some.inj h ▸ .receives hestablished fun hclosed => absurd hclosed hopen
  · obtain ⟨c₁, hc₁, rfl | ⟨reason, rfl⟩⟩ := receiveLoop_receives pause 16 recvs h
    · exact .receives (hestablished.trans hc₁) fun hclosed => absurd hclosed hopen
    · exact .loses (hestablished.trans hc₁) hopen reason

theorem step_steps {e : Event} (h : c.step e = some c') : Steps c e c' := by
  cases e with
  | tick now result pause => exact Option.some.inj h ▸ tick_steps c now result pause
  | handle events checkConnected now recvs pause => exact handle_steps h

/-! ## Pauses -/

/-- The bound of the pause behind the loss number `n + 1` in a row. -/
def pauseCap (n : Nat) : Int := milliseconds (250 * 2 ^ min n 5)

/-- Half of the bound at least, the bound at most. -/
theorem jitter_bounds (cap draw : Nat) : cap / 2 ≤ jitter cap draw ∧ jitter cap draw ≤ cap := by
  have hdraw : draw % (cap - cap / 2 + 1) < cap - cap / 2 + 1 := Nat.mod_lt _ (Nat.succ_pos _)
  unfold jitter
  omega

omit [Double D] in
theorem retry_disconnect (c : StreamConnection D) (reason : Bytes) (pause : Pause) :
    pause.now * 2 + pauseCap c.attempts ≤ (c.disconnect reason pause).retry * 2 ∧
      (c.disconnect reason pause).retry ≤ pause.now + pauseCap c.attempts := by
  have hcap : min 10000 (250 <<< min c.attempts 5) = 250 * 2 ^ min c.attempts 5 := by
    have hle : min c.attempts 5 ≤ 5 := min_le_right _ _
    generalize min c.attempts 5 = n at hle ⊢
    interval_cases n <;> rfl
  have heven : 2 ∣ 250 * 2 ^ min c.attempts 5 := Dvd.dvd.mul_right (by decide) _
  have hjitter := jitter_bounds (250 * 2 ^ min c.attempts 5) pause.draw
  simp only [disconnect, hcap, pauseCap, milliseconds]
  omega

/-- What the marks tell of the state. Between two connections the last mark is the loss of the first,
and the pause lies between half of its bound and the bound. -/
structure Paced (c : StreamConnection D) (ms : List Mark) : Prop where
  attempts : c.attempts = min 16 (failures ms)
  reconnects : c.reconnects = UInt64.ofNat (losses ms)
  pause : c.socket = none → ms = [] ∧ c.retry = 0 ∨
    ∃ front t, ms = front ++ [.lost t] ∧ t * 2 + pauseCap (failures front) ≤ c.retry * 2 ∧
      c.retry ≤ t + pauseCap (failures front)

omit [Double D] in
/-- Snapshots as marks, and as the attempts count them. -/
theorem failures_arrivals (e : Event) {added : List (Action D)} (h : ∀ a ∈ added, Arrives a)
    (ms : List Mark) :
    min 16 (failures (ms ++ added.filterMap (markOf e))) = restart (min 16 (failures ms)) added ∧
      losses (added.filterMap (markOf e)) = 0 := by
  induction added generalizing ms with
  | nil => exact ⟨by rw [List.filterMap_nil, List.append_nil]; rfl, rfl⟩
  | cons a added ih =>
      obtain ⟨ha, hadded⟩ := List.forall_mem_cons.mp h
      cases a with
      | opened => cases ha
      | closed => cases ha
      | received bytes => exact ih hadded ms
      | handed snapshot =>
          obtain ⟨hfailures, hlosses⟩ := ih hadded (ms ++ [.received])
          rw [failures_received, List.append_assoc] at hfailures
          exact ⟨hfailures, hlosses⟩

theorem succ_ne (n : UInt64) : n + 1 ≠ n := by
  intro h
  have hlt := n.toNat_lt
  have hsame := congrArg UInt64.toNat h
  rw [UInt64.toNat_add] at hsame
  have hone : (1 : UInt64).toNat = 1 := rfl
  omega

omit [Double D] in
/-- The marks of a step that tries no address in vain. -/
theorem marksOf_log {e : Event} {added : List (Action D)} (hlog : c'.log = c.log ++ added)
    (htry : c'.addressIndex = c.addressIndex ∨ c'.socket ≠ none) :
    marksOf c e c' = added.filterMap (markOf e) := by
  have hkept : ¬ (c'.socket = none ∧ c'.addressIndex ≠ c.addressIndex) := by tauto
  rw [marksOf, hlog, List.drop_left, if_neg hkept, List.append_nil]

omit [Double D] in
/-- A loss behind the marks of the same step. -/
theorem Paced.lose {ms : List Mark} (hattempts : c.attempts = min 16 (failures ms))
    (hreconnects : c.reconnects = UInt64.ofNat (losses ms)) (reason : Bytes) (pause : Pause) :
    Paced (c.disconnect reason pause) (ms ++ [.lost pause.now]) := by
  obtain ⟨hleast, hmost⟩ := retry_disconnect c reason pause
  have hcap : pauseCap c.attempts = pauseCap (failures ms) := by
    have hmin : min (min 16 (failures ms)) 5 = min (failures ms) 5 := by omega
    rw [hattempts, pauseCap, pauseCap, hmin]
  rw [hcap] at hleast hmost
  refine ⟨?_, ?_, fun _ => .inr ⟨_, _, rfl, hleast, hmost⟩⟩
  · have hmore : (c.disconnect reason pause).attempts = min (c.attempts + 1) 16 := rfl
    rw [hmore, hattempts, failures_lost]
    omega
  · have hmore : (c.disconnect reason pause).reconnects = c.reconnects + 1 := rfl
    rw [hmore, hreconnects, losses_append]
    exact (UInt64.ofNat_add _ _).symm

theorem paced_step {e : Event} {ms : List Mark} (h : c.step e = some c') (hp : Paced c ms) :
    Paced c' (ms ++ marksOf c e c') := by
  cases step_steps h with
  | receives hr hidle =>
      obtain ⟨added, hlog, harrives, hattempts⟩ := hr.gained
      obtain ⟨hfailures, hlosses⟩ := failures_arrivals e harrives ms
      rw [marksOf_log hlog (.inl hr.addressIndex)]
      refine ⟨?_, ?_, fun hclosed => ?_⟩
      · rw [hfailures, ← hp.attempts]
        exact hattempts
      · rw [losses_append, hlosses]
        exact hr.reconnects.trans hp.reconnects
      · have hwas := hr.socket.symm.trans hclosed
        obtain rfl : added = [] := List.append_right_eq_self.mp (hlog.symm.trans (by rw [hidle hwas]))
        rw [List.filterMap_nil, List.append_nil, hr.retry]
        exact hp.pause hwas
  | @loses c₁ hr hopen reason =>
      obtain ⟨added, hlog, harrives, hattempts⟩ := hr.gained
      obtain ⟨hfailures, hlosses⟩ := failures_arrivals e harrives ms
      have hclosing : (c₁.disconnect reason e.pause).log = c.log ++ (added ++ [.closed reason]) := by
        rw [log_disconnect (hr.socket ▸ hopen), hlog, List.append_assoc]
      rw [marksOf_log hclosing (.inl hr.addressIndex), List.filterMap_append, ← List.append_assoc]
      refine Paced.lose ?_ ?_ reason e.pause
      · rw [hfailures, ← hp.attempts]
        exact hattempts
      · rw [losses_append, hlosses]
        exact hr.reconnects.trans hp.reconnects
  | fails hclosed reason =>
      have hmarks : marksOf c e
          (disconnect { c with addressIndex := c.addressIndex + 1 } reason e.pause) =
            [.lost e.pause.now] := by
        have hlog : (disconnect { c with addressIndex := c.addressIndex + 1 } reason e.pause).log =
            c.log := by
          simp [disconnect, hclosed]
        rw [marksOf, hlog, List.drop_length, List.filterMap_nil, List.nil_append]
        exact if_pos ⟨rfl, succ_ne _⟩
      rw [hmarks]
      exact Paced.lose (c := { c with addressIndex := c.addressIndex + 1 }) hp.attempts hp.reconnects
        reason e.pause
  | @opens now result pause he hclosed hretry fd connected =>
      subst he
      have hmarks : marksOf c (.tick now result pause) (c.connect now fd connected) = [.opened now] :=
        marksOf_log (show _ = c.log ++ [.opened c.address] from rfl) (.inr (by simp [connect]))
      rw [hmarks]
      refine ⟨?_, ?_, fun hopen => ?_⟩
      · rw [failures_opened]
        exact hp.attempts
      · rw [losses_append]
        exact hp.reconnects
      · exact absurd hopen (by simp [connect])

variable {c₀ : StreamConnection D} {es : List Event}

theorem paced_run {addresses : List Address} (hi : init addresses = some c₀)
    (h : follow step c₀ es = some c) : Paced c (marks c₀ es) := by
  refine (run_of_follow h).gathered (I := fun ms c => Paced c ms) ?_ fun hp hs => paced_step hs hp
  unfold init at hi
  split at hi
  · obtain rfl := Option.some.inj hi
    exact ⟨rfl, rfl, fun _ => .inl ⟨rfl, rfl⟩⟩
  · cases hi

omit [Double D] in
/-- Without a connection, Tick opens one from the end of the pause on, unless connect fails. -/
theorem tick_opens {now : Int} {result : ConnectResult} (hclosed : c.socket = none)
    (hretry : c.retry ≤ now) (hconnect : result ≠ .failed) (pause : Pause) :
    (c.tick now result pause).socket ≠ none := by
  unfold tick
  rw [if_neg (by simp [hclosed]), if_neg (not_lt.mpr hretry)]
  cases result with
  | failed => exact absurd rfl hconnect
  | connected fd => simp [connect]
  | connecting fd => simp [connect]

omit [Double D] in
/-- And none before. -/
theorem tick_waits {now : Int} {result : ConnectResult} {pause : Pause} (hclosed : c.socket = none)
    (hopen : (c.tick now result pause).socket ≠ none) : c.retry ≤ now := by
  by_contra hearly
  unfold tick at hopen
  rw [if_neg (by simp [hclosed]), if_pos (not_le.mp hearly)] at hopen
  exact hopen hclosed

/-- In every run the counter is that of the losses: connections that were closed and addresses that
gave none. A connection that has shown nothing yet is opened by the first Tick, unless connect fails.
Behind the loss number `n + 1` in a row none is opened before half of 250 ms · 2^min(n, 5), and from
the whole of it on the next Tick opens one unless connect fails. A snapshot starts the row afresh. -/
theorem retries_paced {addresses : List Address} (hi : init addresses = some c₀)
    (h : follow step c₀ es = some c) :
    c.reconnects = UInt64.ofNat (losses (marks c₀ es)) ∧
      (c.socket = none →
        (marks c₀ es = [] ∧ ∀ now result pause, 0 ≤ now → result ≠ .failed →
          (c.tick now result pause).socket ≠ none) ∨
        ∃ front t, marks c₀ es = front ++ [.lost t] ∧
          ∀ now result pause,
            ((c.tick now result pause).socket ≠ none →
              t * 2 + pauseCap (failures front) ≤ now * 2) ∧
            (t + pauseCap (failures front) ≤ now → result ≠ .failed →
              (c.tick now result pause).socket ≠ none)) := by
  have hp := paced_run hi h
  refine ⟨hp.reconnects, fun hclosed => ?_⟩
  rcases hp.pause hclosed with ⟨hnone, hretry⟩ | ⟨front, t, hmarks, hleast, hmost⟩
  · refine .inl ⟨hnone, fun now result pause hnow hconnect => ?_⟩
    exact tick_opens hclosed (hretry.le.trans hnow) hconnect pause
  · refine .inr ⟨front, t, hmarks, fun now result pause => ⟨fun hopen => ?_, fun hover hconnect => ?_⟩⟩
    · have := tick_waits hclosed hopen
      omega
    · exact tick_opens hclosed (hmost.trans hover) hconnect pause

/-- Connect fails, the next one gives a snapshot, and then the server closes the stream. -/
def regained : List Event :=
  let readings : Readings := { frameStarted := fun _ => 0, lastFrame := fun _ => 0 }
  [.tick 0 .failed ⟨0, 0⟩,
    .tick (milliseconds 250) (.connected 5) ⟨0, 0⟩,
    .handle { pollin := true } true (milliseconds 250) [.data greeting readings, .data [] readings]
      ⟨milliseconds 300, 7⟩]

theorem retries_paced_regained : ∃ c₀ c : StreamConnection Integral,
    init [⟨2, []⟩] = some c₀ ∧ follow step c₀ regained = some c ∧
      (∀ now result pause, 0 ≤ now → result ≠ .failed → (c₀.tick now result pause).socket ≠ none) ∧
      marks c₀ regained =
        [.lost 0, .opened (milliseconds 250), .received, .lost (milliseconds 300)] ∧
      c.reconnects = 2 ∧
      ∀ now result pause,
        ((c.tick now result pause).socket ≠ none → milliseconds 425 ≤ now) ∧
        (milliseconds 550 ≤ now → result ≠ .failed → (c.tick now result pause).socket ≠ none) := by
  have hsome : ((init (D := Integral) [⟨2, []⟩]).bind fun c₀ =>
      (follow step c₀ regained).map fun c => (c₀.socket, c.socket, marks c₀ regained)) =
      some (none, none,
        [.lost 0, .opened (milliseconds 250), .received, .lost (milliseconds 300)]) := by
    decide +kernel
  obtain ⟨c₀, hi, hsome⟩ := Option.bind_eq_some_iff.mp hsome
  obtain ⟨c, hc, hparts⟩ := Option.map_eq_some_iff.mp hsome
  simp only [Prod.mk.injEq] at hparts
  obtain ⟨hclosed₀, hclosed, hmarks⟩ := hparts
  obtain ⟨hreconnects, hpaced⟩ := retries_paced hi hc
  rw [hmarks] at hreconnects hpaced
  refine ⟨c₀, c, hi, hc, ?_, hmarks, hreconnects, ?_⟩
  · rcases (retries_paced hi (show follow step c₀ [] = some c₀ from rfl)).2 hclosed₀ with ⟨-, hfirst⟩ | ⟨front, t, hnone, -⟩
    · exact hfirst
    · exact absurd hnone (by simp [marks, gather])
  · rcases hpaced hclosed with ⟨hnone, -⟩ | ⟨front, t, hlast, hpause⟩
    · cases hnone
    · obtain ⟨rfl, hlost⟩ := List.append_inj' (show [Mark.lost 0, .opened (milliseconds 250), .received] ++
        [.lost (milliseconds 300)] = _ from hlast) rfl
      injection hlost with hlost
      injection hlost with htime
      obtain rfl := htime
      have hcap : pauseCap (failures [Mark.lost 0, .opened (milliseconds 250), .received]) =
          milliseconds 250 := rfl
      rw [hcap] at hpause
      refine fun now result pause => ⟨fun hopen => ?_, fun hover => (hpause now result pause).2 ?_⟩
      · have hle := (hpause now result pause).1 hopen
        simp only [milliseconds] at hle ⊢
        omega
      · simp only [milliseconds] at hover ⊢
        omega

end StreamConnection
end WebHtop.Client
