import WebHtop.Lib.Runs
import WebHtop.Server.Accounting

/-!
# The worker and the reactor side by side

`ServerApp::Run` starts one worker thread that collects, publishes and writes the
eventfd, while the main thread runs the reactor. They share `latest_` and the
eventfd only, so an interleaving is a list of events over both. The events are
finer than the source's handlers where a handler loads `latest_` more than once:
each turn of Accept is one event, and the timer is Sweep and then Broadcast.
Session tokens and generation numbers are natural numbers here, 64-bit in the source: a run
must have 2^64 steps before they differ (`fits_run`).
-/

namespace WebHtop.Server

open WebHtop.Lib

structure System where
  reactor : Reactor
  latest : Option Published := none
  sequence : Nat := 0
  /-- The worker has published and not yet written the eventfd. -/
  unnotified : Bool := false
  eventfd : Nat := 0

inductive Event where
  /-- The worker numbers a generation and stores it. -/
  | publish (frame : Buffer)
  /-- The number is used up, but Publish throws before the store. -/
  | publishFailed
  | notify
  | accept (streaming : Bool) (result : Reactor.AcceptResult)
  | session (token : Nat) (ready : Reactor.Ready) (recvs : List RecvResult) (sends : List SendResult)
      (limit : Buffer) (route : Bytes → Buffer)
  | notification
  | sweep
  | timerBroadcast
  /-- `unordered_map` may change the order of two neighbours at any time. -/
  | rehash (i : Nat)
  | elapse (nanoseconds : Nat)
  | shutdown

/-- The steps of the worker. -/
def Event.works : Event → Bool
  | .publish _ => true
  | .publishFailed => true
  | .notify => true
  | _ => false

/-- Exchange the entries at `i` and `i + 1`. -/
def swapAt {α : Type} : Nat → List α → List α
  | 0, a :: b :: l => b :: a :: l
  | i + 1, a :: l => a :: swapAt i l
  | _, l => l

theorem swapAt_perm {α : Type} (i : Nat) (l : List α) : (swapAt i l).Perm l := by
  induction i generalizing l with
  | zero =>
      match l with
      | [] => exact .refl _
      | [_] => exact .refl _
      | a :: b :: l => exact .swap a b l
  | succ i ih =>
      cases l with
      | nil => exact .refl _
      | cons a l => exact (ih l).cons a

namespace System

def init (httpListener streamListener signalFd notificationFd timer : Nat) : System :=
  { reactor := Reactor.init httpListener streamListener signalFd notificationFd timer }

/-- A reactor step; none is taken once Run has returned. -/
def react (s : System) (f : Reactor → Reactor) : Option System :=
  if s.reactor.stopped then none else some { s with reactor := f s.reactor }

/-- The worker stores generation `sequence + 1`. -/
def publish (s : System) (frame : Buffer) : Option System :=
  if h : frame.bytes ≠ [] ∧ s.unnotified = false then
    some
      { s with
        sequence := s.sequence + 1
        latest := some
          { sequence := s.sequence + 1
            frame := { frame with sequence := some (s.sequence + 1) }
            tagged := rfl
            nonempty := h.1 }
        unnotified := true }
  else none

def step (config : ReactorConfig) (s : System) : Event → Option System
  | .publish frame => s.publish frame
  | .publishFailed => if s.unnotified then none else some { s with sequence := s.sequence + 1 }
  | .notify =>
    if s.unnotified then some { s with unnotified := false, eventfd := s.eventfd + 1 } else none
  | .accept streaming result =>
    s.react fun r => if r.listenersPaused then r else r.accept config s.latest streaming result
  | .session token ready recvs sends limit route =>
    s.react fun r => r.handle limit route token ready recvs sends
  | .notification =>
    if s.eventfd = 0 then none
    else ({ s with eventfd := 0 } : System).react fun r => r.broadcast s.latest
  | .sweep => s.react fun r => r.sweep config
  | .timerBroadcast => s.react fun r => r.broadcast s.latest
  | .rehash i => s.react fun r => { r with sessions := swapAt i r.sessions }
  | .elapse nanoseconds => s.react fun r => { r with clock := r.clock + nanoseconds }
  | .shutdown => s.react Reactor.shutdown

/-- The runs of worker and reactor, in any order of their steps. -/
def Step (config : ReactorConfig) : System → Event → System → Prop := StepsOf (step config)

variable {config : ReactorConfig} {s s' : System}

theorem react_eq {f : Reactor → Reactor} (h : s.react f = some s') :
    s' = { s with reactor := f s.reactor } := by
  unfold react at h
  split at h
  · simp at h
  · exact (Option.some.inj h).symm

/-- The reactor's part of a step, one constructor per handler. -/
inductive Acts (config : ReactorConfig) (latest : Option Published) (r : Reactor) :
    Event → Reactor → Prop
  | paused (streaming : Bool) (result : Reactor.AcceptResult) (hp : r.listenersPaused = true) :
      Acts config latest r (.accept streaming result) r
  | accept (streaming : Bool) (result : Reactor.AcceptResult) (hp : ¬ r.listenersPaused = true) :
      Acts config latest r (.accept streaming result) (r.accept config latest streaming result)
  | handle (token : Nat) (ready : Reactor.Ready) (recvs : List RecvResult)
      (sends : List SendResult) (limit : Buffer) (route : Bytes → Buffer) :
      Acts config latest r (.session token ready recvs sends limit route)
        (r.handle limit route token ready recvs sends)
  | notification : Acts config latest r .notification (r.broadcast latest)
  | timerBroadcast : Acts config latest r .timerBroadcast (r.broadcast latest)
  | sweep : Acts config latest r .sweep (r.sweep config)
  | rehash (i : Nat) : Acts config latest r (.rehash i) { r with sessions := swapAt i r.sessions }
  | elapse (n : Nat) : Acts config latest r (.elapse n) { r with clock := r.clock + n }
  | shutdown : Acts config latest r .shutdown r.shutdown

/-- What a step changes: the worker's events leave the reactor alone, the reactor's
events leave the worker's variables alone. -/
theorem step_parts {e : Event} (h : Step config s e s') :
    (e.works = true ∧ s'.reactor = s.reactor ∧ s'.sequence = s.sequence + 1 ∧
      ∃ published : Published, published.sequence = s.sequence + 1 ∧ s'.latest = some published) ∨
    (e.works = true ∧ s'.reactor = s.reactor ∧
      (s.sequence ≤ s'.sequence ∧ s'.sequence ≤ s.sequence + 1) ∧ s'.latest = s.latest) ∨
    (Acts config s.latest s.reactor e s'.reactor ∧ s'.sequence = s.sequence ∧
      s'.latest = s.latest) := by
  unfold Step StepsOf at h
  cases e with
  | publish frame =>
      simp only [step] at h
      simp only [publish] at h
      split at h
      · obtain rfl := Option.some.inj h
        exact .inl ⟨rfl, rfl, rfl, _, rfl, rfl⟩
      · simp at h
  | publishFailed =>
      simp only [step] at h
      split at h
      · simp at h
      · obtain rfl := Option.some.inj h
        exact .inr (.inl ⟨rfl, rfl, ⟨Nat.le_succ _, Nat.le_refl _⟩, rfl⟩)
  | notify =>
      simp only [step] at h
      split at h
      · obtain rfl := Option.some.inj h
        exact .inr (.inl ⟨rfl, rfl, ⟨Nat.le_refl _, Nat.le_succ _⟩, rfl⟩)
      · simp at h
  | accept streaming result =>
      simp only [step] at h
      obtain rfl := react_eq h
      refine .inr (.inr ⟨?_, rfl, rfl⟩)
      simp only
      split
      · exact .paused streaming result ‹_›
      · exact .accept streaming result ‹_›
  | session token ready recvs sends limit route =>
      simp only [step] at h
      obtain rfl := react_eq h
      exact .inr (.inr ⟨.handle token ready recvs sends limit route, rfl, rfl⟩)
  | notification =>
      simp only [step] at h
      split at h
      · simp at h
      · obtain rfl := react_eq h
        exact .inr (.inr ⟨.notification, rfl, rfl⟩)
  | timerBroadcast =>
      simp only [step] at h
      obtain rfl := react_eq h
      exact .inr (.inr ⟨.timerBroadcast, rfl, rfl⟩)
  | sweep =>
      simp only [step] at h
      obtain rfl := react_eq h
      exact .inr (.inr ⟨.sweep, rfl, rfl⟩)
  | rehash i =>
      simp only [step] at h
      obtain rfl := react_eq h
      exact .inr (.inr ⟨.rehash i, rfl, rfl⟩)
  | elapse n =>
      simp only [step] at h
      obtain rfl := react_eq h
      exact .inr (.inr ⟨.elapse n, rfl, rfl⟩)
  | shutdown =>
      simp only [step] at h
      obtain rfl := react_eq h
      exact .inr (.inr ⟨.shutdown, rfl, rfl⟩)

theorem step_cases {e : Event} (h : Step config s e s') :
    (s'.reactor = s.reactor ∧ s'.sequence = s.sequence + 1 ∧
      ∃ published : Published, published.sequence = s.sequence + 1 ∧ s'.latest = some published) ∨
    (s'.reactor = s.reactor ∧ (s.sequence ≤ s'.sequence ∧ s'.sequence ≤ s.sequence + 1) ∧
      s'.latest = s.latest) ∨
    (Acts config s.latest s.reactor e s'.reactor ∧ s'.sequence = s.sequence ∧
      s'.latest = s.latest) := (step_parts h).imp And.right (Or.imp_left And.right)

theorem accounts_acts {latest : Option Published} {r r' : Reactor} {e : Event}
    (ha : Acts config latest r e r') (h : r.Accounts config) : r'.Accounts config := by
  cases ha with
  | paused => exact h
  | accept streaming result => exact Reactor.accounts_accept h latest streaming result
  | handle token ready recvs sends limit route =>
      exact Reactor.accounts_handle h limit route token ready recvs sends
  | notification => exact Reactor.accounts_broadcast h latest
  | timerBroadcast => exact Reactor.accounts_broadcast h latest
  | sweep => exact Reactor.accounts_sweep h
  | rehash i => exact Accounted.reordered h (swapAt_perm i r.sessions)
  | elapse => exact ⟨h.queued, h.budget, h.exact, h.valid, h.clients, h.distinct, h.keys_lt,
      h.issued_nodup, h.issued_lt⟩
  | shutdown => exact Reactor.accounts_shutdown h

theorem accounts_step {e : Event} (hs : Step config s e s') (h : s.reactor.Accounts config) :
    s'.reactor.Accounts config := by
  rcases step_cases hs with ⟨hr, -⟩ | ⟨hr, -⟩ | ⟨ha, -⟩
  · rwa [hr]
  · rwa [hr]
  · exact accounts_acts ha h

variable {httpListener streamListener signalFd notificationFd timer : Nat} {es : List Event}

theorem accounts_run
    (hr : Run (Step config) (init httpListener streamListener signalFd notificationFd timer) es s) :
    s.reactor.Accounts config :=
  hr.invariant (Reactor.accounts_init _ _ _ _ _) fun h hs => accounts_step hs h

/-- In every reachable state the byte counter is the exact sum over the live
sessions and within its budget, no subtraction from it has gone below zero, the
table respects `max_clients`, and no token was issued twice. -/
theorem queued_bytes_exact
    (hr : Run (Step config) (init httpListener streamListener signalFd notificationFd timer) es s) :
    s.reactor.queuedBytes = (s.reactor.sessions.map fun e => e.2.output.bytes).sum ∧
      s.reactor.queuedBytes ≤ kQueueBudget ∧
      s.reactor.underflow = false ∧
      s.reactor.sessions.length ≤ config.maxClients ∧
      s.reactor.issued.Nodup :=
  have h := accounts_run hr
  ⟨h.queued, h.budget, h.exact, h.clients, h.issued_nodup⟩

/-- A subscriber of generation 1 that has taken one byte of it, and an idle HTTP client. -/
def oneByte : List Event :=
  [.publish { bytes := [1, 2, 3] }, .accept true (.descriptor 9), .accept false (.descriptor 10),
    .session 16 { output := true } [] [.accepted 1 0] { bytes := [] } fun _ => { bytes := [] }]

theorem queued_bytes_exact_oneByte : ∃ s, follow (step {}) (init 3 4 5 6 7) oneByte = some s ∧
    s.reactor.queuedBytes = 2 ∧ s.reactor.sessions.length ≤ 256 ∧ s.reactor.issued.Nodup := by
  have hf : follow (step {}) (init 3 4 5 6 7) oneByte =
      some ((follow (step {}) (init 3 4 5 6 7) oneByte).getD (init 3 4 5 6 7)) := rfl
  have hq := queued_bytes_exact (run_of_follow hf)
  exact ⟨_, hf, rfl, hq.2.2.2⟩

end System
end WebHtop.Server
