import WebHtop.Server.QueueHistory
import WebHtop.Server.System

/-!
# What the log of a session tells

The log of a session is read without looking at the session: the buffers enqueued, the
bytes sent, the queue that results, when that queue was filled and when bytes were last
sent. The session itself must agree with its log, and the log of a session that has left
the table is final.
-/

namespace WebHtop.Server

open WebHtop.Lib

/-! ## Reading a log -/

abbrev Log := List (Nat × Happening)

def Happening.buffer : Happening → Option Buffer
  | .enqueued b => some b
  | _ => none

def Happening.bytes : Happening → Bytes
  | .sent bytes => bytes
  | _ => []

def Happening.isSent : Happening → Bool
  | .sent _ => true
  | _ => false

def Happening.isReceived : Happening → Bool
  | .received _ => true
  | _ => false

/-- The buffers handed to Enqueue, oldest first. -/
def enqueuedOf (log : Log) : List Buffer := log.filterMap fun e => e.2.buffer

/-- The bytes sent. -/
def sentOf (log : Log) : Bytes := log.flatMap fun e => e.2.bytes

/-- The time of the last send, 0 before the first. -/
def lastSent (log : Log) : Nat := log.foldl (fun t e => if e.2.isSent then e.1 else t) 0

def History.happen (h : History) : Happening → History
  | .enqueued b => h.push b
  | .sent bytes => (h.consume bytes.length).getD h
  | .refused => { h with queue := {} }
  | _ => h

/-- The history of the queue, and the time at which the queue last ceased to be empty. -/
def replay (log : Log) : History × Nat :=
  log.foldl (fun state e =>
    (state.1.happen e.2,
      if state.1.queue.empty && !(state.1.happen e.2).queue.empty then e.1 else state.2)) ({}, 0)

def historyOf (log : Log) : History := (replay log).1

def filledAt (log : Log) : Nat := (replay log).2

/-- The time in front of the log. -/
def acceptTime (log : Log) : Nat := (log.head?.map Prod.fst).getD 0

@[simp] theorem enqueuedOf_append (log log' : Log) :
    enqueuedOf (log ++ log') = enqueuedOf log ++ enqueuedOf log' := List.filterMap_append

@[simp] theorem sentOf_append (log log' : Log) :
    sentOf (log ++ log') = sentOf log ++ sentOf log' := List.flatMap_append

theorem lastSent_snoc (log : Log) (e : Nat × Happening) :
    lastSent (log ++ [e]) = if e.2.isSent then e.1 else lastSent log := by
  rw [lastSent, List.foldl_append]
  rfl

theorem historyOf_snoc (log : Log) (e : Nat × Happening) :
    historyOf (log ++ [e]) = (historyOf log).happen e.2 := by
  rw [historyOf, replay, List.foldl_append]
  rfl

theorem filledAt_snoc (log : Log) (e : Nat × Happening) :
    filledAt (log ++ [e]) =
      if (historyOf log).queue.empty && !((historyOf log).happen e.2).queue.empty then e.1
      else filledAt log := by
  rw [filledAt, replay, List.foldl_append]
  rfl

theorem pushed_consume (h : History) (n : Nat) : ((h.consume n).getD h).pushed = h.pushed := by
  unfold History.consume
  cases h.queue.consume n <;> rfl

theorem consume_history {h : History} {n : Nat} {q : OutputQueue} (hq : h.queue.consume n = some q) :
    ∃ h', h.consume n = some h' ∧ h'.queue = q ∧
      h'.consumed = h.consumed ++ h.queue.front.take n := by
  rw [History.consume, hq]
  exact ⟨_, rfl, rfl, rfl⟩

/-- The history has seen every buffer. -/
theorem historyOf_pushed (log : Log) : (historyOf log).pushed = enqueuedOf log := by
  induction log using List.reverseRecOn with
  | nil => rfl
  | append_singleton log e ih =>
      obtain ⟨t, happening⟩ := e
      rw [historyOf_snoc, enqueuedOf_append, ← ih]
      cases happening with
      | sent bytes => exact (pushed_consume _ _).trans (List.append_nil _).symm
      | enqueued b => rfl
      | _ => exact (List.append_nil _).symm

/-! ## A live session agrees with its log -/

/-- The queue, the deadline and the accept time of a session are those of its log. -/
structure Session.Told (clock : Nat) (s : Session) : Prop where
  queue : (historyOf s.log).queue = s.output
  kept : (historyOf s.log).Kept
  consumed : (historyOf s.log).consumed = sentOf s.log
  unrefused : ∀ e ∈ s.log, e.2 ≠ .refused
  filled_le : filledAt s.log ≤ clock
  sent_le : lastSent s.log ≤ clock
  progress : s.output.empty = false → s.lastProgress = max (filledAt s.log) (lastSent s.log)
  accepted : s.log.head? = some (s.acceptedAt, .accepted)

namespace Session

variable {clock : Nat} {s : Session}

theorem Told.valid (h : s.Told clock) : s.output.Valid := h.queue ▸ h.kept.valid

theorem Told.mono (h : s.Told clock) {clock' : Nat} (hle : clock ≤ clock') : s.Told clock' :=
  ⟨h.queue, h.kept, h.consumed, h.unrefused, h.filled_le.trans hle, h.sent_le.trans hle,
    h.progress, h.accepted⟩

theorem told_accepted (fd : Nat) (streaming : Bool) (lastProgress : Nat) :
    Told clock { fd, streaming, acceptedAt := clock, lastProgress, log := [(clock, .accepted)] } :=
  ⟨rfl, History.kept_init, rfl, by simp, Nat.zero_le _, Nat.zero_le _, fun h => (nomatch h), rfl⟩

theorem head_append {log : Log} {e f : Nat × Happening} (h : log.head? = some e) :
    (log ++ [f]).head? = some e := by
  cases log with
  | nil => cases h
  | cons _ _ => exact h

theorem unrefused_snoc {log : Log} (h : ∀ e ∈ log, e.2 ≠ .refused) {e : Nat × Happening}
    (he : e.2 ≠ .refused) : ∀ e' ∈ log ++ [e], e'.2 ≠ .refused := by
  intro e' he'
  rcases List.mem_append.mp he' with hm | hm
  · exact h e' hm
  · exact List.mem_singleton.mp hm ▸ he

/-- Request bytes change nothing that the log is read for. -/
theorem told_received (h : s.Told clock) (bytes : Bytes) (request : Bytes) (responding : Bool) :
    Told clock { s with request, responding, log := s.log ++ [(clock, .received bytes)] } := by
  have hhistory := historyOf_snoc s.log (clock, .received bytes)
  have hfilled : filledAt (s.log ++ [(clock, .received bytes)]) = filledAt s.log := by
    rw [filledAt_snoc]
    cases he : (historyOf s.log).queue.empty <;> simp [History.happen, he]
  have hsent := lastSent_snoc s.log (clock, .received bytes)
  refine ⟨?_, ?_, ?_, unrefused_snoc h.unrefused (by simp), ?_, ?_, ?_, head_append h.accepted⟩
  · rw [hhistory]
    exact h.queue
  · rw [hhistory]
    exact h.kept
  · rw [hhistory, sentOf_append]
    exact h.consumed.trans (List.append_nil _).symm
  · rw [hfilled]
    exact h.filled_le
  · rw [hsent]
    exact h.sent_le
  · intro hne
    rw [hfilled, hsent]
    exact h.progress hne

theorem push_empty (q : OutputQueue) (b : Buffer) : (q.push b).2.empty = false := by
  unfold OutputQueue.push
  split
  · rfl
  · rename_i c hc
    split
    · rfl
    · simp [OutputQueue.empty, hc]

/-- A push starts the clock only where the queue was empty. -/
theorem told_pushed (h : s.Told clock) {b : Buffer} (hb : b.bytes ≠ []) :
    (s.pushed clock b).Told clock := by
  have hhistory := historyOf_snoc s.log (clock, .enqueued b)
  have hqueue : ((historyOf s.log).push b).queue = (s.output.push b).2 :=
    congrArg (fun q : OutputQueue => (q.push b).2) h.queue
  have hfilled : filledAt (s.log ++ [(clock, .enqueued b)]) =
      if s.output.empty then clock else filledAt s.log := by
    rw [filledAt_snoc]
    have hfull : ((historyOf s.log).happen (.enqueued b)).queue.empty = false := by
      show ((historyOf s.log).push b).queue.empty = false
      rw [hqueue]
      exact push_empty _ _
    rw [hfull, h.queue, Bool.not_false, Bool.and_true]
  have hsent : lastSent (s.log ++ [(clock, .enqueued b)]) = lastSent s.log :=
    lastSent_snoc s.log (clock, .enqueued b)
  have hfilledLe := h.filled_le
  have hsentLe := h.sent_le
  refine ⟨?_, ?_, ?_, unrefused_snoc h.unrefused (by simp), ?_, ?_, ?_, head_append h.accepted⟩
  · show (historyOf (s.log ++ [(clock, .enqueued b)])).queue = _
    rw [hhistory]
    exact hqueue
  · show (historyOf (s.log ++ [(clock, .enqueued b)])).Kept
    rw [hhistory]
    exact History.kept_push h.kept hb
  · show (historyOf (s.log ++ [(clock, .enqueued b)])).consumed = _
    rw [hhistory, pushed, sentOf_append]
    exact h.consumed.trans (List.append_nil _).symm
  · show filledAt (s.log ++ [(clock, .enqueued b)]) ≤ clock
    rw [hfilled]
    split <;> omega
  · show lastSent (s.log ++ [(clock, .enqueued b)]) ≤ clock
    rw [hsent]
    exact hsentLe
  · intro _
    show (if s.output.empty then clock else s.lastProgress) =
      max (filledAt (s.log ++ [(clock, .enqueued b)])) (lastSent (s.log ++ [(clock, .enqueued b)]))
    rw [hfilled, hsent]
    cases he : s.output.empty with
    | true =>
        simp only [↓reduceIte]
        omega
    | false =>
        simp only [Bool.false_eq_true, ↓reduceIte]
        exact h.progress he

/-- The session after `written` bytes left its queue at `clock`. -/
def consumed (s : Session) (clock written : Nat) (output : OutputQueue) : Session :=
  { s with
    output
    lastProgress := clock
    log := s.log ++ [(clock, .sent (s.output.front.take written))] }

theorem told_consumed (h : s.Told clock) {clock' written : Nat} {output : OutputQueue}
    (hle : clock ≤ clock') (hw : written ≤ s.output.front.length)
    (ho : s.output.consume written = some output) : (s.consumed clock' written output).Told clock' := by
  have hne : s.output.empty = false := by
    cases hc : s.output.current with
    | none => simp [OutputQueue.consume, hc] at ho
    | some b => simp [OutputQueue.empty, hc]
  have hlength : (s.output.front.take written).length = written := by
    rw [List.length_take]
    omega
  obtain ⟨h', hh', hqueue, hcons⟩ := consume_history (h := historyOf s.log) (h.queue ▸ ho)
  rw [h.queue] at hcons
  have hstep : historyOf (s.log ++ [(clock', .sent (s.output.front.take written))]) = h' := by
    rw [historyOf_snoc]
    show ((historyOf s.log).consume (s.output.front.take written).length).getD _ = h'
    rw [hlength, hh']
    rfl
  have hfilled : filledAt (s.log ++ [(clock', .sent (s.output.front.take written))]) =
      filledAt s.log := by
    rw [filledAt_snoc, h.queue, hne]
    rfl
  have hsent : lastSent (s.log ++ [(clock', .sent (s.output.front.take written))]) = clock' :=
    lastSent_snoc s.log _
  have hfilledLe := h.filled_le
  refine ⟨?_, ?_, ?_, unrefused_snoc h.unrefused (by simp), ?_, ?_, ?_, head_append h.accepted⟩
  · show (historyOf (s.log ++ [_])).queue = output
    rw [hstep, hqueue]
  · show (historyOf (s.log ++ [_])).Kept
    rw [hstep]
    exact History.kept_consume h.kept (by rw [h.queue]; exact hne) (by rw [h.queue]; exact hw) hh'
  · show (historyOf (s.log ++ [_])).consumed = sentOf (s.log ++ [_])
    rw [hstep, hcons, h.consumed, sentOf_append]
    exact congrArg (sentOf s.log ++ ·) (List.append_nil _).symm
  · show filledAt (s.log ++ [_]) ≤ clock'
    rw [hfilled]
    omega
  · exact Nat.le_of_eq hsent
  · intro _
    show clock' = max (filledAt (s.log ++ [_])) (lastSent (s.log ++ [_]))
    rw [hfilled, hsent]
    omega

/-! ## The one response of an HTTP session -/

end Session

/-- No request bytes after a buffer was enqueued. -/
def ReadsFirst (log : Log) : Prop :=
  log.Pairwise fun e f => e.2.buffer ≠ none → f.2.isReceived = false

theorem readsFirst_snoc {log : Log} (h : ReadsFirst log) {e : Nat × Happening}
    (he : enqueuedOf log = [] ∨ e.2.isReceived = false) : ReadsFirst (log ++ [e]) := by
  refine List.pairwise_append.mpr ⟨h, List.pairwise_singleton _ _, ?_⟩
  intro e' he' f hf hb
  rw [List.mem_singleton.mp hf]
  rcases he with hnone | hr
  · exact absurd (List.filterMap_eq_nil_iff.mp hnone e' he') hb
  · exact hr

/-- At most one response is enqueued, no frame is, and what is sent is a prefix of it. -/
structure OneResponse (log : Log) : Prop where
  single : (enqueuedOf log).length ≤ 1
  untagged : ∀ b ∈ enqueuedOf log, b.sequence = none
  sent : ∀ b ∈ enqueuedOf log, sentOf log <+: b.bytes
  silent : enqueuedOf log = [] → sentOf log = []
  order : ReadsFirst log

namespace Session

variable {clock : Nat} {s : Session}

/-- The log of an HTTP session that has not left. -/
structure Answering (s : Session) : Prop where
  waiting : s.responding = false → enqueuedOf s.log = []
  answered : s.responding = true → ∃ b, enqueuedOf s.log = [b] ∧ b.sequence = none
  order : ReadsFirst s.log

theorem Told.silent (h : s.Told clock) (hnone : enqueuedOf s.log = []) :
    sentOf s.log = [] ∧ s.output.empty = true := by
  have hpushed := (historyOf_pushed s.log).trans hnone
  have horder := h.kept.order
  rw [hpushed] at horder
  obtain ⟨hfinished, hitems⟩ := List.append_eq_nil_iff.mp (List.sublist_nil.mp horder)
  have hcurrent : (historyOf s.log).queue.current = none := by
    cases hc : (historyOf s.log).queue.current with
    | none => rfl
    | some c => simp [OutputQueue.items, hc] at hitems
  have hcontent := h.kept.content
  rw [hfinished, h.consumed, History.partSent, hcurrent] at hcontent
  exact ⟨hcontent, by rw [← h.queue, OutputQueue.empty, hcurrent]; rfl⟩

/-- With one buffer enqueued, a queue that is not empty has sent a proper prefix of it,
and an empty one has sent it all. -/
theorem Told.single (h : s.Told clock) {b : Buffer} (hone : enqueuedOf s.log = [b]) :
    sentOf s.log <+: b.bytes ∧ (s.output.empty = true ↔ sentOf s.log = b.bytes) := by
  have hpushed := (historyOf_pushed s.log).trans hone
  have horder := h.kept.order
  have hnewest := h.kept.newest
  have hcontent := h.kept.content
  rw [hpushed] at horder hnewest
  rw [h.consumed] at hcontent
  have hempty : s.output.empty = (historyOf s.log).queue.current.isNone := by
    rw [← h.queue]
    rfl
  cases hc : (historyOf s.log).queue.current with
  | none =>
      have hitems : (historyOf s.log).queue.items = [] := by
        simp [OutputQueue.items, hc, (h.kept.valid.idle hc).1]
      rw [hitems, List.append_nil] at horder hnewest
      have hfinished : (historyOf s.log).finished = [b] := by
        rcases List.sublist_singleton.mp horder with hf | hf
        · rw [hf] at hnewest
          cases hnewest
        · exact hf
      have hall : sentOf s.log = b.bytes := by
        rw [hcontent, hfinished, History.partSent, hc]
        simp
      exact ⟨hall ▸ List.prefix_rfl, by rw [hempty, hc]; simp [hall]⟩
  | some c =>
      have hitems : (historyOf s.log).queue.items =
          c :: (historyOf s.log).queue.pending.toList := by
        simp [OutputQueue.items, hc]
      have hlength := horder.length_le
      rw [hitems, List.length_append, List.length_cons, List.length_singleton] at hlength
      have hfinished : (historyOf s.log).finished = [] :=
        List.eq_nil_of_length_eq_zero (by omega)
      have hpending : (historyOf s.log).queue.pending.toList = [] :=
        List.eq_nil_of_length_eq_zero (by omega)
      rw [hitems, hfinished, hpending] at hnewest
      obtain rfl : c = b := Option.some.inj hnewest
      have hlt := h.kept.valid.offset_lt c hc
      have hpart : sentOf s.log = c.bytes.take (historyOf s.log).queue.offset := by
        rw [hcontent, hfinished, History.partSent, hc]
        rfl
      have hne : sentOf s.log ≠ c.bytes := by
        intro he
        have := congrArg List.length (hpart.symm.trans he)
        rw [List.length_take] at this
        omega
      exact ⟨hpart ▸ List.take_prefix _ _, by rw [hempty, hc]; simp [hne]⟩

theorem oneResponse (h : s.Told clock) (ha : s.Answering) : OneResponse s.log := by
  cases hr : s.responding with
  | false =>
      have hnone := ha.waiting hr
      exact ⟨by simp [hnone], by simp [hnone], by simp [hnone], fun _ => (h.silent hnone).1,
        ha.order⟩
  | true =>
      obtain ⟨b, hone, huntagged⟩ := ha.answered hr
      refine ⟨by simp [hone], ?_, ?_, by simp [hone], ha.order⟩
      · intro b' hb'
        rw [hone] at hb'
        exact List.mem_singleton.mp hb' ▸ huntagged
      · intro b' hb'
        rw [hone] at hb'
        exact List.mem_singleton.mp hb' ▸ (h.single hone).1

/-! ## The handlers -/

/-- A session between two calls on its socket. -/
structure Open (clock : Nat) (s : Session) : Prop where
  told : s.Told clock
  answering : s.streaming = false → s.Answering
  streams : s.streaming = true → s.responding = false

/-- A session between two steps of the reactor. -/
structure Live (clock : Nat) (s : Session) : Prop extends Open clock s where
  unsent : s.responding = true → s.output.empty = false

/-- A session that has left the table. -/
structure Past (s : Session) : Prop where
  refusedLast : ∀ e ∈ s.log.dropLast, e.2 ≠ .refused
  response : s.streaming = false → OneResponse s.log

theorem Open.past (h : s.Open clock) : s.Past :=
  ⟨fun e he => h.told.unrefused e (List.dropLast_subset _ he),
    fun hs => oneResponse h.told (h.answering hs)⟩

theorem Open.mono (h : s.Open clock) {clock' : Nat} (hle : clock ≤ clock') : s.Open clock' :=
  ⟨h.told.mono hle, h.answering, h.streams⟩

theorem Live.mono (h : s.Live clock) {clock' : Nat} (hle : clock ≤ clock') : s.Live clock' :=
  ⟨h.toOpen.mono hle, h.unsent⟩

theorem refusedLast_refused (h : s.Told clock) (b : Buffer) :
    ∀ e ∈ (s.refused clock b).log.dropLast, e.2 ≠ .refused := by
  rw [refused, List.dropLast_concat]
  exact unrefused_snoc h.unrefused (by simp)

/-- What a handler leaves of a session: a live one, or a log that is final. -/
structure Leaves (clock : Nat) (alive : Bool) (s : Session) : Prop where
  live : alive = true → s.Live clock
  past : alive = false → s.Past

end Session

namespace Meter

open Session

variable {m : Meter} {s : Session}

/-- Write ends a session whose queue is drained, unless it is a subscriber. -/
theorem leaves_stop {clock : Nat} (h : s.Open clock) :
    Leaves clock (s.streaming || !s.output.empty) s := by
  refine ⟨fun ha => ⟨h, fun hr => ?_⟩, fun _ => h.past⟩
  cases hs : s.streaming with
  | true => exact absurd ((h.streams hs).symm.trans hr) (by simp)
  | false => simpa [hs] using ha

theorem open_consumed {clock clock' written : Nat} {output : OutputQueue} (h : s.Open clock)
    (hle : clock ≤ clock') (hw : written ≤ s.output.front.length)
    (ho : s.output.consume written = some output) : (s.consumed clock' written output).Open clock' := by
  have henq : enqueuedOf (s.log ++ [(clock', .sent (s.output.front.take written))]) =
      enqueuedOf s.log := by
    rw [enqueuedOf_append]
    exact List.append_nil _
  refine ⟨told_consumed h.told hle hw ho, fun hs => ?_, h.streams⟩
  have ha := h.answering hs
  refine ⟨fun hr => ?_, fun hr => ?_, readsFirst_snoc ha.order (.inr rfl)⟩
  · rw [consumed, henq]
    exact ha.waiting hr
  · rw [consumed, henq]
    exact ha.answered hr

/-- A frame for a subscriber. -/
theorem leaves_enqueue (h : s.Open m.clock) (hs : s.streaming = true) {b : Buffer}
    (hb : b.bytes ≠ []) :
    Leaves m.clock (m.enqueue s b).1 (m.enqueue s b).2.1 ∧ (m.enqueue s b).2.2.clock = m.clock := by
  have hclock := charge_clock m s.output b
  rcases enqueue_cases m s b with ⟨_, he⟩ | ⟨_, he⟩
  · rw [he]
    exact ⟨⟨fun hf => (nomatch hf), fun _ => ⟨refusedLast_refused h.told b, fun hn => by
      rw [refused_streaming, hs] at hn
      cases hn⟩⟩, hclock⟩
  · rw [he]
    refine ⟨⟨fun _ => ⟨⟨told_pushed h.told hb, fun hn => ?_, h.streams⟩, fun _ => push_empty _ _⟩,
      fun hf => (nomatch hf)⟩, hclock⟩
    rw [pushed_streaming, hs] at hn
    cases hn

/-- The response of an HTTP session, the first buffer it is given. -/
theorem leaves_respond (h : s.Open m.clock) (hs : s.streaming = false)
    (hr : s.responding = false) {b : Buffer} (hb : b.bytes ≠ []) (huntagged : b.sequence = none) :
    Leaves m.clock (m.enqueue { s with responding := true, request := [] } b).1
      (m.enqueue { s with responding := true, request := [] } b).2.1 := by
  let t : Session := { s with responding := true, request := [] }
  have htold : t.Told m.clock := ⟨h.told.queue, h.told.kept, h.told.consumed, h.told.unrefused,
    h.told.filled_le, h.told.sent_le, h.told.progress, h.told.accepted⟩
  have hnone := (h.answering hs).waiting hr
  have hsilent := (h.told.silent hnone).1
  have henq : enqueuedOf (s.log ++ [(m.clock, .enqueued b)]) = [b] := by
    rw [enqueuedOf_append, hnone]
    rfl
  have hsent : sentOf (s.log ++ [(m.clock, .enqueued b)]) = [] := by
    rw [sentOf_append, hsilent]
    rfl
  have horder : ReadsFirst (s.log ++ [(m.clock, .enqueued b)]) :=
    readsFirst_snoc (h.answering hs).order (.inr rfl)
  rcases enqueue_cases m t b with ⟨_, he⟩ | ⟨_, he⟩
  · rw [he]
    refine ⟨fun hf => (nomatch hf), fun _ => ⟨refusedLast_refused htold b, fun _ => ?_⟩⟩
    have henq' : enqueuedOf (t.refused m.clock b).log = [b] := by
      show enqueuedOf (s.log ++ [(m.clock, .enqueued b)] ++ [(m.clock, .refused)]) = [b]
      rw [enqueuedOf_append, henq]
      rfl
    have hsent' : sentOf (t.refused m.clock b).log = [] := by
      show sentOf (s.log ++ [(m.clock, .enqueued b)] ++ [(m.clock, .refused)]) = []
      rw [sentOf_append, hsent]
      rfl
    refine ⟨by simp [henq'], by simp [henq', huntagged], by simp [hsent'], by simp [henq'], ?_⟩
    exact readsFirst_snoc horder (.inr rfl)
  · rw [he]
    refine ⟨fun _ => ⟨⟨told_pushed htold hb, fun _ => ⟨fun hf => (nomatch hf), fun _ => ?_, horder⟩,
      fun hf => ?_⟩, fun _ => push_empty _ _⟩, fun hf => (nomatch hf)⟩
    · exact ⟨b, henq, huntagged⟩
    · exact absurd (hs.symm.trans hf) (by simp)

theorem enqueue_clock (m : Meter) (s : Session) (b : Buffer) :
    (m.enqueue s b).2.2.clock = m.clock := by
  have hclock := charge_clock m s.output b
  rcases enqueue_cases m s b with ⟨_, he⟩ | ⟨_, he⟩ <;> rw [he] <;> exact hclock

/-- Read, on an HTTP session without a response. -/
theorem leaves_read (limit : Buffer) (route : Bytes → Buffer) (tries : Nat)
    (recvs : List RecvResult) (h : s.Open m.clock) (hs : s.streaming = false)
    (hr : s.responding = false) :
    Leaves m.clock (readLoop limit route tries recvs s m).1
        (readLoop limit route tries recvs s m).2.1 ∧
      (readLoop limit route tries recvs s m).2.2.clock = m.clock := by
  have hlive : ∀ {s : Session}, s.Open m.clock → s.responding = false → Leaves m.clock true s :=
    fun h hr => ⟨fun _ => ⟨h, fun hf => absurd (hr.symm.trans hf) (by simp)⟩, fun hf => (nomatch hf)⟩
  have hpast : ∀ {s : Session}, s.Open m.clock → Leaves m.clock false s :=
    fun h => ⟨fun hf => (nomatch hf), fun _ => h.past⟩
  induction recvs generalizing tries s with
  | nil => cases tries <;> exact ⟨hlive h hr, rfl⟩
  | cons result results ih =>
      cases tries with
      | zero => exact ⟨hlive h hr, rfl⟩
      | succ tries =>
          match result with
          | .interrupted => exact ih tries h hs hr
          | .wouldBlock => exact ⟨hlive h hr, rfl⟩
          | .failed => exact ⟨hpast h, rfl⟩
          | .data [] => exact ⟨hpast h, rfl⟩
          | .data (c :: cs) =>
              have hnone := (h.answering hs).waiting hr
              have hopen : Open m.clock { s with
                  request := s.request ++ (c :: cs).take 2048
                  log := s.log ++ [(m.clock, .received ((c :: cs).take 2048))] } := by
                refine ⟨told_received h.told _ _ _, fun _ => ⟨fun _ => ?_, fun hf => ?_, ?_⟩,
                  fun _ => hr⟩
                · rw [enqueuedOf_append, hnone]
                  rfl
                · exact absurd (hr.symm.trans hf) (by simp)
                · exact readsFirst_snoc (h.answering hs).order (.inl hnone)
              simp only [readLoop]
              split
              · exact ih tries hopen hs hr
              · split
                · exact ih tries hopen hs hr
                · rename_i response _ hb
                  exact ⟨leaves_respond hopen hs hr (b := { response with sequence := none }) hb rfl,
                    enqueue_clock _ _ _⟩

/-- Write: a session that stays has bytes left, or is a subscriber. -/
theorem leaves_write (token : Nat) (budget : Nat) (sends : List SendResult)
    (h : s.Open m.clock) :
    Leaves (writeLoop token budget sends s m).2.2.clock (writeLoop token budget sends s m).1
        (writeLoop token budget sends s m).2.1 ∧
      m.clock ≤ (writeLoop token budget sends s m).2.2.clock := by
  induction sends generalizing budget s m with
  | nil => exact ⟨leaves_stop h, Nat.le_refl _⟩
  | cons result results ih =>
      simp only [writeLoop]
      split
      · exact ⟨leaves_stop h, Nat.le_refl _⟩
      · rename_i hgo
        cases result with
        | interrupted => exact ih budget h
        | wouldBlock =>
            have hne : s.output.empty = false := by simpa using fun he => hgo (.inr he)
            exact ⟨⟨fun _ => ⟨h, fun _ => hne⟩, fun hf => absurd hf.symm Bool.false_ne_true⟩, Nat.le_refl _⟩
        | failed => exact ⟨⟨fun hf => absurd hf Bool.false_ne_true, fun _ => h.past⟩, Nat.le_refl _⟩
        | accepted size elapsed =>
            simp only
            split
            · exact ⟨⟨fun hf => absurd hf Bool.false_ne_true, fun _ => h.past⟩, Nat.le_refl _⟩
            · split
              · exact ⟨⟨fun hf => absurd hf Bool.false_ne_true, fun _ => h.past⟩, Nat.le_refl _⟩
              · rename_i output ho
                have hopen := open_consumed h (Nat.le_add_right m.clock elapsed)
                  (by omega) ho
                obtain ⟨hleaves, hle⟩ := ih (budget - _)
                  (s := s.consumed (m.clock + elapsed) _ output)
                  (m := { m.subtract _ with
                    bytesSent := _
                    clock := m.clock + elapsed
                    wire := _ }) hopen
                exact ⟨hleaves, Nat.le_trans (Nat.le_add_right _ _) hle⟩

end Meter
end WebHtop.Server
