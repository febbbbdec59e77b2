import WebHtop.Server.Diagnostics
import WebHtop.Server.SamplingWorker

/-!
# The server

`ServerApp::Run`: the worker thread samples, publishes and notifies, the main thread runs the reactor
and answers requests from the latest generation and from its own counters. Here a generation is the
snapshot with its texts and Route is the function of the source, so that what a session is sent can be
traced to what the worker has published. The reactor is the one of the system in which a generation
is a number and a frame; every run of the server is one of that system.
-/

namespace WebHtop.Server

open WebHtop.Lib WebHtop.Common WebHtop.Server.Collectors WebHtop.Server.Http

variable {D : Type} [Double D]

/-- What the constructors have fixed before the worker starts. `interval` is in milliseconds. -/
structure Launch where
  config : ReactorConfig := {}
  bindAddress : BindAddress
  interval : Nat := 1000
  started : TimePoint
  instanceId : Bytes

/-- A generation that Publish has built. -/
abbrev Generation (D : Type) [Double D] :=
  { g : PublishedSnapshot D // ∃ begin_, publish g.snapshot begin_ g.publishedAt = some g }

/-- Where the worker stands in its loop. -/
inductive Phase where
  | sampling
  | notifying
  | catchingUp
  deriving DecidableEq

/-- `published` is an observation; no step reads it. -/
structure ServerApp (D : Type) [Double D] where
  reactor : Reactor
  worker : Worker D
  phase : Phase := .sampling
  latest : Option (Generation D) := none
  eventfd : Nat := 0
  published : List (Generation D) := []

namespace Generation

/-- The sequence of a generation as a number. -/
def sequence (g : Generation D) : Nat := g.val.snapshot.telemetry.sequence.toNat

theorem encoded (g : Generation D) : encode g.val.snapshot = some g.val.json := by
  obtain ⟨_, h⟩ := g.property
  exact (publish_eq h).2.1

theorem framed (g : Generation D) : frame g.val.json = some g.val.frame := by
  obtain ⟨_, h⟩ := g.property
  exact (publish_eq h).2.2.1

theorem listed (g : Generation D) : (processesTree g.val.snapshot).toString = some g.val.processesJson := by
  obtain ⟨_, h⟩ := g.property
  exact (publish_eq h).2.2.2.1

theorem validLength (g : Generation D) : validLength g.val.json.length := validLength_of_frame g.framed

theorem length_frame (g : Generation D) : g.val.frame.length = g.val.json.length + 4 := by
  obtain ⟨header, hframe, hlength, -⟩ := frame_spec g.validLength
  rw [Option.some.inj (g.framed.symm.trans hframe), List.length_append, hlength]
  omega

theorem frame_lt (g : Generation D) : g.val.frame.length < 2 ^ 63 := by
  have hframe := g.length_frame
  have hmax := g.validLength.2
  rw [kMaxPayload_eq] at hmax
  omega

theorem frame_ne_nil (g : Generation D) : g.val.frame ≠ [] := by
  have hframe := g.length_frame
  rintro hnil
  rw [hnil] at hframe
  simp at hframe

/-- The frame as it is enqueued. -/
def buffer (g : Generation D) : Buffer :=
  { sequence := some g.sequence, bytes := g.val.frame, size_lt := g.frame_lt }

/-- The generation as the transport sees it. -/
def transported (g : Generation D) : Published :=
  { sequence := g.sequence, frame := g.buffer, tagged := rfl, nonempty := g.frame_ne_nil }

theorem json_page (g : Generation D) : g.val.json.length < 2 ^ 62 := by
  have hmax := g.validLength.2
  rw [kMaxPayload_eq] at hmax
  omega

variable [LawfulDouble D]

theorem processes_page (g : Generation D) : g.val.processesJson.length < 2 ^ 62 :=
  (length_processesJson g.encoded g.listed).trans_lt g.json_page

/-- What Route reads of a generation. -/
def page (interval : Nat) (now : TimePoint) (g : Generation D) : Latest where
  recent := now.val - g.val.publishedAt.val < 3 * (interval * 1000000)
  collectors := g.val.snapshot.telemetry.collectors
  json := ⟨g.val.json, g.json_page⟩
  processesJson := ⟨g.val.processesJson, g.processes_page⟩

end Generation

namespace ServerApp

variable [LawfulDouble D]

/-- What Route answers from. -/
def pages (launch : Launch) (s : ServerApp D) (readings : Readings) : Pages where
  latest := s.latest.map (Generation.page launch.interval readings.now)
  diagnostics :=
    ⟨(diagnostics launch.config launch.bindAddress launch.started s.reactor
      (s.latest.map Subtype.val) readings).get (diagnostics_isSome _ _ _ _ _ _),
      (length_diagnostics (Option.some_get _).symm).trans_lt (by decide)⟩
  exporter :=
    ⟨exporter s.reactor (s.latest.map Subtype.val) readings.now,
      (length_exporter _ _ _).trans_lt (by decide)⟩

def init (next : TimePoint) (httpListener streamListener signalFd notificationFd timer : Nat) :
    ServerApp D :=
  { reactor := Reactor.init httpListener streamListener signalFd notificationFd timer
    worker := { next := next.val } }

inductive Event (D : Type) where
  /-- The try block of the worker, up to the store; Publish reads the clock twice. -/
  | collect (turn : Turn D) (begin_ publishedAt : TimePoint)
  | notify
  /-- The worker sets its next deadline. -/
  | advance (now : TimePoint)
  | accept (streaming : Bool) (result : Reactor.AcceptResult)
  | session (token : Nat) (ready : Reactor.Ready) (recvs : List RecvResult) (sends : List SendResult)
      (readings : Readings)
  | notification
  | sweep
  | timerBroadcast
  | rehash (i : Nat)
  | elapse (nanoseconds : Nat)
  | shutdown

def Event.handler : Event D → Handler
  | .accept _ result => .accept result
  | .notification => .broadcast
  | .timerBroadcast => .broadcast
  | .sweep => .sweep
  | _ => .other

/-- The snapshot that the worker hands to Publish. -/
def stamp (launch : Launch) (w : Worker D) (snapshot : SystemSnapshot D) : SystemSnapshot D :=
  { snapshot with
    telemetry :=
      { snapshot.telemetry with
        sequence := w.sequence + 1
        instanceId := launch.instanceId
        skippedTicks := w.skipped } }

/-- Publish as a generation; `none` where it throws. -/
def generation (snapshot : SystemSnapshot D) (begin_ publishedAt : TimePoint) : Option (Generation D) :=
  match h : publish snapshot begin_ publishedAt with
  | none => none
  | some g => some ⟨g, begin_, by
      obtain ⟨hs, -, -, -, ht⟩ := publish_eq h
      rw [hs, ht, h]⟩

/-- One turn of the worker up to the store. A turn that was asked to stop goes no further. -/
def collect (launch : Launch) (s : ServerApp D) (turn : Turn D) (begin_ publishedAt : TimePoint) :
    Option (ServerApp D) :=
  if s.phase = .sampling then
    let stored := turn.collected.bind fun snapshot =>
      generation (stamp launch s.worker snapshot) begin_ publishedAt
    (s.worker.sample launch.instanceId { turn with publishes := stored.isSome }).map fun worker =>
      match stored with
      | none => { s with worker, phase := .catchingUp }
      | some g =>
        { s with worker, phase := .notifying, latest := some g, published := s.published ++ [g] }
  else none

/-- A reactor step; none is taken once Run has returned. -/
def react (s : ServerApp D) (f : Reactor → Reactor) : Option (ServerApp D) :=
  if s.reactor.stopped then none else some { s with reactor := f s.reactor }

def step (launch : Launch) (s : ServerApp D) : Event D → Option (ServerApp D)
  | .collect turn begin_ publishedAt => s.collect launch turn begin_ publishedAt
  | .notify =>
    if s.phase = .notifying then some { s with phase := .catchingUp, eventfd := s.eventfd + 1 }
    else none
  | .advance now =>
    if s.phase = .catchingUp then
      some { s with phase := .sampling, worker := s.worker.advance (launch.interval * 1000000) now }
    else none
  | .accept streaming result =>
    s.react fun r =>
      if r.listenersPaused then r
      else r.accept launch.config (s.latest.map Generation.transported) streaming result
  | .session token ready recvs sends readings =>
    s.react fun r =>
      r.handle headerLimit (respond (s.pages launch readings)) token ready recvs sends
  | .notification =>
    if s.eventfd = 0 then none
    else ({ s with eventfd := 0 } : ServerApp D).react fun r =>
      r.broadcast (s.latest.map Generation.transported)
  | .sweep => s.react fun r => r.sweep launch.config
  | .timerBroadcast => s.react fun r => r.broadcast (s.latest.map Generation.transported)
  | .rehash i => s.react fun r => { r with sessions := swapAt i r.sessions }
  | .elapse nanoseconds => s.react fun r => { r with clock := r.clock + nanoseconds }
  | .shutdown => s.react Reactor.shutdown

/-- The runs of the server, in any order of the steps of its two threads. -/
def Step (launch : Launch) : ServerApp D → Event D → ServerApp D → Prop := StepsOf (step launch)

/-! ## What a step changes -/

/-- The system that the transport sees. -/
def toSystem (s : ServerApp D) : System where
  reactor := s.reactor
  latest := s.latest.map Generation.transported
  sequence := s.worker.sequence.toNat
  unnotified := s.phase = .notifying
  eventfd := s.eventfd

/-- The steps of the worker and of the reactor. -/
inductive Changes (launch : Launch) (s : ServerApp D) : ServerApp D → Prop
  | stored {g : Generation D} {worker : Worker D} (hphase : s.phase = .sampling)
      (hworker : worker.sequence = s.worker.sequence + 1)
      (hpublished : worker.published = s.worker.published ++ [g.val.snapshot])
      (hg : g.val.snapshot.telemetry.sequence = s.worker.sequence + 1)
      (hinstance : g.val.snapshot.telemetry.instanceId = launch.instanceId) :
      Changes launch s
        { s with worker, phase := .notifying, latest := some g, published := s.published ++ [g] }
  | unpublished {worker : Worker D} (hphase : s.phase = .sampling)
      (hworker : worker.sequence = s.worker.sequence ∨ worker.sequence = s.worker.sequence + 1)
      (hpublished : worker.published = s.worker.published) :
      Changes launch s { s with worker, phase := .catchingUp }
  | notified (hphase : s.phase = .notifying) :
      Changes launch s { s with phase := .catchingUp, eventfd := s.eventfd + 1 }
  | advanced (now : TimePoint) (hphase : s.phase = .catchingUp) :
      Changes launch s
        { s with phase := .sampling, worker := s.worker.advance (launch.interval * 1000000) now }
  | acted {event : Server.Event} {reactor : Reactor} {eventfd : Nat}
      (ha : System.Acts launch.config (s.latest.map Generation.transported) s.reactor event reactor)
      (hstep : System.Step launch.config s.toSystem event
        { s.toSystem with reactor, eventfd })
      (hroute : ∀ token ready recvs sends limit route,
        event = .session token ready recvs sends limit route →
          limit = headerLimit ∧ ∃ readings, route = respond (s.pages launch readings)) :
      Changes launch s { s with reactor, eventfd }

variable {launch : Launch} {s s' : ServerApp D}

omit [LawfulDouble D] in
theorem react_eq {f : Reactor → Reactor} (h : s.react f = some s') :
    s.reactor.stopped = false ∧ s' = { s with reactor := f s.reactor } := by
  unfold react at h
  split at h
  · cases h
  · rename_i hstopped
    exact ⟨Bool.of_not_eq_true hstopped, (Option.some.inj h).symm⟩

omit [LawfulDouble D] in
theorem react_toSystem {f : Reactor → Reactor} (h : s.reactor.stopped = false) :
    s.toSystem.react f = some { s.toSystem with reactor := f s.reactor } := if_neg (by simp [toSystem, h])

omit [LawfulDouble D] in
theorem generation_eq {snapshot : SystemSnapshot D} {begin_ publishedAt : TimePoint} {g : Generation D}
    (h : generation snapshot begin_ publishedAt = some g) : g.val.snapshot = snapshot := by
  unfold generation at h
  split at h
  · cases h
  · rename_i hp
    obtain rfl := Option.some.inj h
    exact (publish_eq hp).1

theorem collect_changes {turn : Turn D} {begin_ publishedAt : TimePoint}
    (h : s.collect launch turn begin_ publishedAt = some s') : Changes launch s s' := by
  unfold collect at h
  split at h
  · rename_i hphase
    cases hc : turn.collected with
    | none =>
        simp only [hc, Option.bind_none, Worker.sample, Option.map_some] at h
        obtain rfl := Option.some.inj h
        exact .unpublished hphase (.inl rfl) rfl
    | some snapshot =>
        simp only [hc, Option.bind_some, Worker.sample] at h
        split at h
        · cases h
        · cases hg : generation (stamp launch s.worker snapshot) begin_ publishedAt with
          | none =>
              simp only [hg, Option.map_some] at h
              obtain rfl := Option.some.inj h
              exact .unpublished hphase (.inr rfl) rfl
          | some g =>
              have hs := generation_eq hg
              simp only [hg, Option.map_some] at h
              obtain rfl := Option.some.inj h
              refine .stored hphase rfl ?_ (by rw [hs]; rfl) (by rw [hs]; rfl)
              rw [hs]
              rfl
  · cases h

omit [LawfulDouble D] in
theorem collect_reactor {turn : Turn D} {begin_ publishedAt : TimePoint}
    (h : s.collect launch turn begin_ publishedAt = some s') : s'.reactor = s.reactor := by
  unfold collect at h
  split at h
  · obtain ⟨worker, -, hworker⟩ := Option.map_eq_some_iff.mp h
    split at hworker <;> exact (congrArg ServerApp.reactor hworker).symm
  · cases h

/-- The handler of the reactor that a step runs, if it runs one. -/
def Handles (launch : Launch) (s : ServerApp D) (event : Event D) (s' : ServerApp D) : Prop :=
  (event.handler = .other ∧ s'.reactor = s.reactor) ∨ ∃ e, e.handler = event.handler ∧
    System.Acts launch.config (s.latest.map Generation.transported) s.reactor e s'.reactor

/-- What a step changes and which handler has changed it. -/
theorem step_parts {event : Event D} (h : Step launch s event s') :
    Changes launch s s' ∧ Handles launch s event s' := by
  unfold Step StepsOf at h
  -- A handler of the reactor, with the event that the transport sees.
  have hacted : ∀ (f : Reactor → Reactor) (e : Server.Event), s.react f = some s' →
      System.step launch.config s.toSystem e = s.toSystem.react f → e.handler = event.handler →
      System.Acts launch.config (s.latest.map Generation.transported) s.reactor e (f s.reactor) →
      (∀ token ready recvs sends limit route, e = .session token ready recvs sends limit route →
        limit = headerLimit ∧ ∃ readings, route = respond (s.pages launch readings)) →
      Changes launch s s' ∧ Handles launch s event s' := by
    intro f e hreact hstep hhandler ha hroute
    obtain ⟨hstopped, rfl⟩ := react_eq hreact
    exact ⟨.acted ha (hstep.trans (react_toSystem hstopped)) hroute, .inr ⟨e, hhandler, ha⟩⟩
  cases event with
  | collect turn begin_ publishedAt => exact ⟨collect_changes h, .inl ⟨rfl, collect_reactor h⟩⟩
  | notify =>
      simp only [step] at h
      split at h
      · obtain rfl := Option.some.inj h
        exact ⟨.notified ‹_›, .inl ⟨rfl, rfl⟩⟩
      · cases h
  | advance now =>
      simp only [step] at h
      split at h
      · obtain rfl := Option.some.inj h
        exact ⟨.advanced now ‹_›, .inl ⟨rfl, rfl⟩⟩
      · cases h
  | accept streaming result =>
      simp only [step] at h
      refine hacted _ (.accept streaming result) h rfl rfl ?_ (by simp)
      split
      · exact .paused streaming result ‹_›
      · exact .accept streaming result ‹_›
  | session token ready recvs sends readings =>
      simp only [step] at h
      refine hacted _ _ h rfl rfl (.handle token ready recvs sends headerLimit
        (respond (s.pages launch readings))) ?_
      intro token' ready' recvs' sends' limit route he
      injection he with _ _ _ _ hlimit hroute
      exact ⟨hlimit.symm, readings, hroute.symm⟩
  | notification =>
      simp only [step] at h
      split at h
      · cases h
      · rename_i hfd
        obtain ⟨hstopped, rfl⟩ := react_eq h
        refine ⟨.acted .notification ?_ (by simp), .inr ⟨.notification, rfl, .notification⟩⟩
        have hstep : System.step launch.config s.toSystem .notification =
            ({ s.toSystem with eventfd := 0 } : System).react fun r => r.broadcast s.toSystem.latest :=
          if_neg hfd
        exact hstep.trans (if_neg (Bool.eq_false_iff.mp hstopped))
  | sweep => exact hacted _ .sweep h rfl rfl .sweep (by simp)
  | timerBroadcast =>
      simp only [step] at h
      exact hacted _ .timerBroadcast h rfl rfl .timerBroadcast (by simp)
  | rehash i =>
      simp only [step] at h
      exact hacted _ (.rehash i) h rfl rfl (.rehash i) (by simp)
  | elapse n =>
      simp only [step] at h
      exact hacted _ (.elapse n) h rfl rfl (.elapse n) (by simp)
  | shutdown => exact hacted _ .shutdown h rfl rfl .shutdown (by simp)

theorem step_changes {event : Event D} (h : Step launch s event s') : Changes launch s s' :=
  (step_parts h).1

/-! ## Refinement -/

/-- The counter of the generations does not wrap in the next step. -/
def Unwrapped (s : ServerApp D) (_ : Event D) : Prop := s.worker.sequence.toNat + 1 < 2 ^ 64

/-- The transport takes each step along, or stands still. -/
theorem changes_toSystem (h : Changes launch s s') (hs : s.worker.sequence.toNat + 1 < 2 ^ 64) :
    ∃ es, Run (System.Step launch.config) s.toSystem es s'.toSystem := by
  have hnext : (s.worker.sequence + 1).toNat = s.worker.sequence.toNat + 1 := by
    rw [UInt64.toNat_add]
    exact Nat.mod_eq_of_lt hs
  cases h with
  | @stored g worker hphase hworker hpublished hg hinstance =>
      refine ⟨[.publish g.buffer], .single ?_⟩
      have hfree : s.toSystem.unnotified = false := by simp [toSystem, hphase]
      have hnumber : g.sequence = s.worker.sequence.toNat + 1 :=
        (congrArg UInt64.toNat hg).trans hnext
      have hstep : s.toSystem.publish g.buffer = some
          { s.toSystem with
            sequence := s.worker.sequence.toNat + 1
            latest := some
              { sequence := s.worker.sequence.toNat + 1
                frame := { g.buffer with sequence := some (s.worker.sequence.toNat + 1) }
                tagged := rfl
                nonempty := g.frame_ne_nil }
            unnotified := true } := dif_pos ⟨g.frame_ne_nil, hfree⟩
      refine hstep.trans (congrArg some ?_)
      simp only [toSystem, hworker, hnext, Option.map_some, Generation.transported,
        Generation.buffer, hnumber, decide_true]
  | @unpublished worker hphase hworker hpublished =>
      have hfree : s.toSystem.unnotified = false := by simp [toSystem, hphase]
      rcases hworker with hworker | hworker
      · refine ⟨[], ?_⟩
        have hsame : ({ s with worker, phase := .catchingUp } : ServerApp D).toSystem = s.toSystem := by
          simp [toSystem, hworker, hphase]
        rw [hsame]
        exact .nil
      · refine ⟨[.publishFailed], .single ?_⟩
        have hstep : System.step launch.config s.toSystem .publishFailed =
            some { s.toSystem with sequence := s.worker.sequence.toNat + 1 } :=
          if_neg (Bool.eq_false_iff.mp hfree)
        refine hstep.trans (congrArg some ?_)
        simp [toSystem, hworker, hphase, hnext]
  | notified hphase =>
      refine ⟨[.notify], .single ?_⟩
      have hbusy : s.toSystem.unnotified = true := by simp [toSystem, hphase]
      have hstep : System.step launch.config s.toSystem .notify =
          some { s.toSystem with unnotified := false, eventfd := s.eventfd + 1 } := if_pos hbusy
      refine hstep.trans (congrArg some ?_)
      simp [toSystem]
  | advanced now hphase =>
      refine ⟨[], ?_⟩
      have hsame : ({ s with
          phase := .sampling
          worker := s.worker.advance (launch.interval * 1000000) now } : ServerApp D).toSystem =
          s.toSystem := by
        simp only [toSystem, hphase, Worker.advance]
        split <;> rfl
      rw [hsame]
      exact .nil
  | @acted event reactor eventfd ha hstep hroute => exact ⟨[event], .single hstep⟩

theorem sequence_changes (h : Changes launch s s') :
    s'.worker.sequence.toNat ≤ s.worker.sequence.toNat + 1 := by
  have hnext : (s.worker.sequence + 1).toNat ≤ s.worker.sequence.toNat + 1 := by
    rw [UInt64.toNat_add]
    exact Nat.mod_le _ _
  cases h with
  | stored hphase hworker hpublished hg hinstance => exact (congrArg UInt64.toNat hworker).trans_le hnext
  | unpublished hphase hworker hpublished =>
      rcases hworker with hworker | hworker
      · exact (congrArg UInt64.toNat hworker).trans_le (Nat.le_succ _)
      · exact (congrArg UInt64.toNat hworker).trans_le hnext
  | notified hphase => exact Nat.le_succ _
  | advanced now hphase =>
      simp only [Worker.advance]
      split <;> exact Nat.le_succ _
  | acted ha hstep hroute => exact Nat.le_succ _

/-! ## What has been published -/

/-- The generations of a run, and what the worker has left of them. -/
structure Publishing (launch : Launch) (s : ServerApp D) : Prop where
  latest : s.latest = s.published.getLast?
  snapshots : s.published.map (fun g => g.val.snapshot) = s.worker.published
  increasing : (s.published.map Generation.sequence).Pairwise (· < ·)
  bounded : ∀ g ∈ s.published, 1 ≤ g.sequence ∧ g.sequence ≤ s.worker.sequence.toNat
  instanceId : ∀ g ∈ s.published, g.val.snapshot.telemetry.instanceId = launch.instanceId

omit [LawfulDouble D] in
theorem Publishing.mem_published (h : Publishing launch s) {g : Generation D}
    (hg : s.latest = some g) : g ∈ s.published := List.mem_of_getLast? (h.latest.symm.trans hg)

theorem publishing_changes (hc : Changes launch s s') (hs : s.worker.sequence.toNat + 1 < 2 ^ 64)
    (h : Publishing launch s) : Publishing launch s' := by
  have hnext : (s.worker.sequence + 1).toNat = s.worker.sequence.toNat + 1 := by
    rw [UInt64.toNat_add]
    exact Nat.mod_eq_of_lt hs
  cases hc with
  | @stored g worker hphase hworker hpublished hg hinstance =>
      have hnumber : g.sequence = s.worker.sequence.toNat + 1 :=
        (congrArg UInt64.toNat hg).trans hnext
      have hcount : worker.sequence.toNat = s.worker.sequence.toNat + 1 :=
        (congrArg UInt64.toNat hworker).trans hnext
      refine ⟨List.getLast?_concat.symm, ?_, ?_, ?_, ?_⟩
      · rw [List.map_append, h.snapshots, hpublished]
        rfl
      · rw [List.map_append, List.pairwise_append]
        refine ⟨h.increasing, List.pairwise_singleton _ _, ?_⟩
        simp only [List.forall_mem_map, List.map_cons, List.map_nil, List.forall_mem_singleton]
        intro g' hg'
        have := (h.bounded g' hg').2
        omega
      · refine List.forall_mem_append.mpr ⟨fun g' hg' => ?_, List.forall_mem_singleton.mpr ?_⟩
        · have hbound := h.bounded g' hg'
          exact ⟨hbound.1, hbound.2.trans (hcount.ge.trans' (Nat.le_succ _))⟩
        · exact ⟨by omega, hnumber.trans_le hcount.ge⟩
      · exact List.forall_mem_append.mpr ⟨h.instanceId, List.forall_mem_singleton.mpr hinstance⟩
  | @unpublished worker hphase hworker hpublished =>
      refine ⟨h.latest, h.snapshots.trans hpublished.symm, h.increasing, fun g hg => ?_, h.instanceId⟩
      have hbound := h.bounded g hg
      have hle : s.worker.sequence.toNat ≤ worker.sequence.toNat := by
        rcases hworker with hworker | hworker
        · exact (congrArg UInt64.toNat hworker).ge
        · have := congrArg UInt64.toNat hworker
          omega
      exact ⟨hbound.1, hbound.2.trans hle⟩
  | notified hphase => exact ⟨h.latest, h.snapshots, h.increasing, h.bounded, h.instanceId⟩
  | advanced now hphase =>
      have hsame : (s.worker.advance (launch.interval * 1000000) now).sequence = s.worker.sequence ∧
          (s.worker.advance (launch.interval * 1000000) now).published = s.worker.published := by
        simp only [Worker.advance]
        split <;> exact ⟨rfl, rfl⟩
      exact ⟨h.latest, h.snapshots.trans hsame.2.symm, h.increasing, fun g hg =>
        hsame.1.symm ▸ h.bounded g hg, h.instanceId⟩
  | acted ha hstep hroute => exact ⟨h.latest, h.snapshots, h.increasing, h.bounded, h.instanceId⟩

/-! ## Runs -/

variable {next : TimePoint} {httpListener streamListener signalFd notificationFd timer : Nat}
  {es : List (Event D)}

theorem sequence_run
    (hr : Run (Step launch) (init next httpListener streamListener signalFd notificationFd timer) es s) :
    s.worker.sequence.toNat ≤ es.length := by
  induction hr with
  | nil => exact Nat.le_refl 0
  | snoc _ hstep ih =>
      have := sequence_changes (step_changes hstep)
      rw [List.length_append, List.length_singleton]
      omega

/-- A run that is not astronomically long does not wrap the counter. -/
theorem unwrapped_run
    (hr : Run (Step launch) (init next httpListener streamListener signalFd notificationFd timer) es s)
    (hes : es.length < 2 ^ 64) :
    Run (Where (Step launch) Unwrapped)
      (init next httpListener streamListener signalFd notificationFd timer) es s := by
  induction hr with
  | nil => exact .nil
  | snoc hrun hstep ih =>
      rw [List.length_append, List.length_singleton] at hes
      have hcount := sequence_run hrun
      exact .snoc (ih (by omega)) ⟨Nat.lt_of_le_of_lt (Nat.succ_le_succ hcount) hes, hstep⟩

theorem publishing_run
    (hr : Run (Where (Step launch) Unwrapped)
      (init next httpListener streamListener signalFd notificationFd timer) es s) :
    Publishing launch s := by
  refine hr.invariant ⟨rfl, rfl, .nil, ?_, ?_⟩ fun h hs =>
    publishing_changes (step_changes hs.2) hs.1 h
  · exact List.forall_mem_nil _
  · exact List.forall_mem_nil _

/-- Every run of the server is one of the transport. -/
theorem system_run
    (hr : Run (Where (Step launch) Unwrapped)
      (init next httpListener streamListener signalFd notificationFd timer) es s) :
    ∃ ds, Run (System.Step launch.config)
      (System.init httpListener streamListener signalFd notificationFd timer) ds s.toSystem := by
  obtain ⟨ds, q, hrun, rfl⟩ := hr.simulation (R := fun s q => q = s.toSystem)
    (p := System.init httpListener streamListener signalFd notificationFd timer) rfl
    fun hq hs => by
      obtain rfl := hq
      obtain ⟨ds, hds⟩ := changes_toSystem (step_changes hs.2) hs.1
      exact ⟨ds, _, hds, rfl⟩
  exact ⟨ds, hrun⟩

/-- What the steps of the server have done. -/
def journal (launch : Launch) : ServerApp D → List (Event D) → List Outcome :=
  gather (step launch) fun s event s' => s.reactor.outcomes launch.config event.handler s'.reactor

theorem books_step {event : Event D} (h : Step launch s event s')
    (hb : s.reactor.Books launch.config) :
    s'.reactor.Books launch.config ∧
      Posts s.reactor (s.reactor.outcomes launch.config event.handler s'.reactor) s'.reactor := by
  rcases (step_parts h).2 with ⟨hhandler, hr⟩ | ⟨e, hhandler, ha⟩
  · rw [hr]
    obtain ⟨hb, -, hp⟩ := System.books_idle hhandler hb
    exact ⟨hb, hp⟩
  · obtain ⟨hb, -, hp⟩ := System.books_acts ha hb
    exact ⟨hb, hhandler ▸ hp⟩

/-- The counters of the reactor in a run of the whole server. -/
theorem ledger_run
    (hr : Run (Step launch) (init next httpListener streamListener signalFd notificationFd timer) es s) :
    Ledger (journal launch (init next httpListener streamListener signalFd notificationFd timer) es)
      s.reactor := by
  refine (hr.gathered (I := fun l s => s.reactor.Books launch.config ∧ Ledger l s.reactor)
    ⟨Reactor.books_init _ _ _ _ _, ledger_init _ _ _ _ _⟩ ?_).2
  intro l s event s' ⟨hb, hl⟩ hs
  obtain ⟨hb', hp⟩ := books_step hs hb
  exact ⟨hb', hl.post hb hb' hp⟩

/-- The server refines the transport, for which a generation is a number and a frame. What the worker
has published is numbered without repetition, carries the instance of the launch, and ends with what
the reactor loads. -/
theorem refines_system
    (hr : Run (Step launch) (init next httpListener streamListener signalFd notificationFd timer) es s)
    (hes : es.length < 2 ^ 64) :
    Publishing launch s ∧ ∃ ds, Run (System.Step launch.config)
      (System.init httpListener streamListener signalFd notificationFd timer) ds s.toSystem :=
  have h := unwrapped_run hr hes
  ⟨publishing_run h, system_run h⟩

def local_ : Launch :=
  { bindAddress := System.loopback, started := epoch, instanceId := lit "a" }

/-- The worker publishes a generation 5 µs after it began. -/
def publishes : Event Integral :=
  let turn : Turn Integral :=
    { begun := epoch
      collected := some misnamed
      stopRequested := false
      publishes := true
      now := epoch }
  .collect turn epoch ⟨5000, by decide⟩

/-- The worker publishes a generation, and a subscriber takes five bytes of it. -/
def greeted : List (Event Integral) :=
  [publishes, .notify, .advance ⟨9000, by decide⟩,
    .accept true (.descriptor 9), .session 16 { output := true } [] [.accepted 5 0] System.quiet]

def start : ServerApp Integral := init epoch 3 4 5 6 7

theorem follow_greeted : ∃ s, follow (step local_) start greeted = some s ∧
    s.reactor.bytesSent = 5 ∧ s.published.length = 1 := by
  have hsome : ((follow (step local_) start greeted).map fun s =>
      (s.reactor.bytesSent, s.published.length)) = some (5, 1) := by decide +kernel
  obtain ⟨s, hs, hcounts⟩ := Option.map_eq_some_iff.mp hsome
  rw [Prod.mk.injEq] at hcounts
  exact ⟨s, hs, hcounts.1, hcounts.2⟩

theorem refines_system_greeted : ∃ s, follow (step local_) start greeted = some s ∧
    s.published.length = 1 ∧ Publishing local_ s ∧
    ∃ ds, Run (System.Step {}) (System.init 3 4 5 6 7) ds s.toSystem := by
  obtain ⟨s, hf, -, hlength⟩ := follow_greeted
  obtain ⟨hpublishing, hsystem⟩ := refines_system (run_of_follow hf) (by decide)
  exact ⟨s, hf, hlength, hpublishing, hsystem⟩

end ServerApp
end WebHtop.Server
