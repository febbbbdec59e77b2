import WebHtop.Server.Deliveries

/-!
# The counters of the reactor

`dropped_`, `bytes_sent_`, `accepted_`, `rejected_` and `timeouts_` are only ever reported. Over
every run they are exact: the superseded frames and the bytes are those in the logs of all sessions
that were ever accepted, and the others count what the steps of the run have done to sessions, which
is read off the table of sessions before and after a step.
-/

namespace WebHtop.Server

open WebHtop.Lib

/-! ## What the logs of the sessions tell -/

/-- The pushes of a session that superseded a frame. -/
def supersededOf (log : Log) : Nat := (historyOf log).superseded

/-- What the counters gain is what the log of the session gains. -/
structure Tallies (m : Meter) (s : Session) (m' : Meter) (s' : Session) : Prop where
  dropped : m'.dropped + supersededOf s.log = m.dropped + supersededOf s'.log
  bytesSent : m'.bytesSent + (sentOf s.log).length = m.bytesSent + (sentOf s'.log).length
  dropped_le : m.dropped ≤ m'.dropped
  bytesSent_le : m.bytesSent ≤ m'.bytesSent

namespace Tallies

variable {m m' m'' : Meter} {s s' s'' : Session}

theorem refl (m : Meter) (s : Session) : Tallies m s m s := ⟨rfl, rfl, le_refl _, le_refl _⟩

theorem trans (h : Tallies m s m' s') (h' : Tallies m' s' m'' s'') : Tallies m s m'' s'' := by
  obtain ⟨hdropped, hsent, hle, hsentLe⟩ := h
  obtain ⟨hdropped', hsent', hle', hsentLe'⟩ := h'
  exact ⟨by omega, by omega, hle.trans hle', hsentLe.trans hsentLe'⟩

end Tallies

theorem supersededOf_snoc (log : Log) (e : Nat × Happening) :
    supersededOf (log ++ [e]) = ((historyOf log).happen e.2).superseded :=
  congrArg History.superseded (historyOf_snoc log e)

namespace Meter

variable {m : Meter} {s : Session}

theorem charge_tally (m : Meter) (q : OutputQueue) (b : Buffer) :
    (m.charge q b).dropped = m.dropped + (if (q.push b).1 then 1 else 0) ∧
      (m.charge q b).bytesSent = m.bytesSent := by
  unfold charge
  cases (q.push b).1 <;> exact ⟨rfl, rfl⟩

/-- Push reports a superseded frame to the counter and to the history alike. -/
theorem tallies_enqueue (h : (historyOf s.log).queue = s.output) (b : Buffer) :
    Tallies m s (m.enqueue s b).2.2 (m.enqueue s b).2.1 := by
  obtain ⟨hdropped, hsent⟩ := charge_tally m s.output b
  have hpush : supersededOf (s.log ++ [(m.clock, .enqueued b)]) =
      supersededOf s.log + (if (s.output.push b).1 then 1 else 0) := by
    rw [supersededOf_snoc, ← h]
    rfl
  rcases enqueue_cases m s b with ⟨_, he⟩ | ⟨_, he⟩
  · rw [he]
    have hrefused : supersededOf (s.refused m.clock b).log =
        supersededOf (s.log ++ [(m.clock, .enqueued b)]) := supersededOf_snoc _ _
    have hbytes : sentOf (s.refused m.clock b).log = sentOf s.log := by
      have := (enqueue_same m s b).2
      rwa [he] at this
    refine ⟨?_, ?_, ?_, hsent.ge⟩
    · show (m.charge s.output b).dropped + _ = _
      rw [hrefused, hpush, hdropped]
      omega
    · show (m.charge s.output b).bytesSent + _ = _
      rw [hbytes, hsent]
    · show m.dropped ≤ (m.charge s.output b).dropped
      omega
  · rw [he]
    have hbytes : sentOf (s.pushed m.clock b).log = sentOf s.log := by
      have := (enqueue_same m s b).2
      rwa [he] at this
    refine ⟨?_, ?_, ?_, hsent.ge⟩
    · show (m.charge s.output b).dropped + _ = _ + supersededOf (s.log ++ [(m.clock, .enqueued b)])
      rw [hpush, hdropped]
      omega
    · rw [hbytes, hsent]
    · show m.dropped ≤ (m.charge s.output b).dropped
      omega

theorem tallies_received (m : Meter) (s : Session) (time : Nat) (bytes request : Bytes)
    (responding : Bool) :
    Tallies m s m { s with request, responding, log := s.log ++ [(time, .received bytes)] } := by
  refine ⟨?_, ?_, le_refl _, le_refl _⟩
  · rw [supersededOf_snoc]
    rfl
  · simp only [sentOf_append]
    exact congrArg (fun n => m.bytesSent + n) (by simp [sentOf, Happening.bytes])

theorem tallies_read (limit : Buffer) (route : Bytes → Buffer) (tries : Nat) (recvs : List RecvResult)
    (h : (historyOf s.log).queue = s.output) :
    Tallies m s (readLoop limit route tries recvs s m).2.2
      (readLoop limit route tries recvs s m).2.1 := by
  induction recvs generalizing tries s with
  | nil => cases tries <;> exact .refl m s
  | cons result results ih =>
      cases tries with
      | zero => exact .refl m s
      | succ tries =>
          match result with
          | .interrupted => exact ih tries h
          | .wouldBlock => exact .refl m s
          | .failed => exact .refl m s
          | .data [] => exact .refl m s
          | .data (c :: cs) =>
              have hqueue : (historyOf (s.log ++ [(m.clock, .received ((c :: cs).take 2048))])).queue =
                  s.output := by
                rw [historyOf_snoc]
                exact h
              have hread := tallies_received m s m.clock ((c :: cs).take 2048)
              simp only [readLoop]
              split
              · exact (hread _ _).trans (ih tries hqueue)
              · split
                · exact (hread _ _).trans (ih tries hqueue)
                · rename_i response _ _
                  exact (hread [] true).trans (tallies_enqueue hqueue { response with sequence := none })

theorem superseded_consume (h : History) (n : Nat) :
    ((h.consume n).getD h).superseded = h.superseded := by
  unfold History.consume
  cases h.queue.consume n <;> rfl

theorem tallies_write (token budget : Nat) (sends : List SendResult) :
    Tallies m s (writeLoop token budget sends s m).2.2 (writeLoop token budget sends s m).2.1 := by
  induction sends generalizing budget s m with
  | nil => exact .refl m s
  | cons result results ih =>
      simp only [writeLoop]
      split
      · exact .refl m s
      · cases result with
        | interrupted => exact ih budget
        | wouldBlock => exact .refl m s
        | failed => exact .refl m s
        | accepted size elapsed =>
            simp only
            generalize hwritten : min size (min s.output.front.length budget) = written
            split
            · exact .refl m s
            · split
              · exact .refl m s
              · rename_i output ho
                have htake : (s.output.front.take written).length = written := by
                  rw [List.length_take]
                  omega
                refine Tallies.trans ?_ (ih (budget - written)
                  (s := s.consumed (m.clock + elapsed) written output)
                  (m := { m.subtract written with
                    bytesSent := m.bytesSent + written
                    clock := m.clock + elapsed
                    wire := _ }))
                refine ⟨?_, ?_, le_refl _, Nat.le_add_right _ _⟩
                · rw [Session.consumed, supersededOf_snoc]
                  exact congrArg (m.dropped + ·) (superseded_consume _ _).symm
                · show m.bytesSent + written + _ = _
                  rw [Session.consumed, sentOf_append, List.length_append]
                  simp only [sentOf, List.flatMap_cons, List.flatMap_nil, List.append_nil,
                    Happening.bytes, htake]
                  omega

theorem tallies_serve (limit : Buffer) (route : Bytes → Buffer) (token : Nat) (ready : Reactor.Ready)
    (recvs : List RecvResult) (sends : List SendResult) (h : (historyOf s.log).queue = s.output) :
    Tallies m s (serve limit route token ready recvs sends s m).2.2
      (serve limit route token ready recvs sends s m).2.1 := by
  simp only [serve]
  generalize hread : (if (!ready.error && !s.streaming && !s.responding &&
    (ready.input || ready.readHup || ready.hup)) = true then
      readLoop limit route 8 recvs s m else (!ready.error, s, m)) = read
  have hr : Tallies m s read.2.2 read.2.1 := by
    rw [← hread]
    split
    · exact tallies_read limit route 8 recvs h
    · exact .refl m s
  split
  · exact hr.trans (tallies_write token kWriteBudget sends)
  · exact hr

end Meter

/-! ## What the steps tell -/

/-- What a step of the reactor has done to a session, or to a connection that did not become one. -/
inductive Outcome
  | opened (token : Nat)
  | turnedAway
  /-- A broadcast went over the budget. -/
  | overBudget (token : Nat)
  /-- A sweep came after a deadline. -/
  | expired (token : Nat)
  deriving DecidableEq

namespace Outcome

def opens : Outcome → Option Nat
  | opened token => some token
  | _ => none

/-- What `rejected_` counts. -/
def rejects : Outcome → Bool
  | turnedAway => true
  | overBudget _ => true
  | _ => false

def expires : Outcome → Option Nat
  | expired token => some token
  | _ => none

/-- The sessions that the reactor has ended itself. -/
def ends : Outcome → Option Nat
  | overBudget token => some token
  | expired token => some token
  | _ => none

end Outcome

def opened (journal : List Outcome) : List Nat := journal.filterMap Outcome.opens

def timedOut (journal : List Outcome) : List Nat := journal.filterMap Outcome.expires

def ended (journal : List Outcome) : List Nat := journal.filterMap Outcome.ends

section

variable (l l' : List Outcome) (tokens : List Nat)

@[simp] theorem opened_nil : opened [] = [] := rfl

@[simp] theorem timedOut_nil : timedOut [] = [] := rfl

@[simp] theorem ended_nil : ended [] = [] := rfl

@[simp] theorem opened_append : opened (l ++ l') = opened l ++ opened l' := List.filterMap_append

@[simp] theorem timedOut_append : timedOut (l ++ l') = timedOut l ++ timedOut l' :=
  List.filterMap_append

@[simp] theorem ended_append : ended (l ++ l') = ended l ++ ended l' := List.filterMap_append

/-- Tokens with an outcome that is theirs for one of the three readings. -/
theorem filterMap_map_some {f : Outcome → Option Nat} {g : Nat → Outcome} (h : ∀ n, f (g n) = some n) :
    (tokens.map g).filterMap f = tokens := by
  have hsome : f ∘ g = some := funext h
  rw [List.filterMap_map, hsome, List.filterMap_some]

theorem filterMap_map_none {f : Outcome → Option Nat} {g : Nat → Outcome} (h : ∀ n, f (g n) = none) :
    (tokens.map g).filterMap f = [] := by
  simp [List.filterMap_map, h]

end

/-- The handlers of the reactor that change `accepted_`, `rejected_` or `timeouts_`. -/
inductive Handler
  | accept (result : Reactor.AcceptResult)
  | broadcast
  | sweep
  | other

def Event.handler : Event → Handler
  | .accept _ result => .accept result
  | .notification => .broadcast
  | .timerBroadcast => .broadcast
  | .sweep => .sweep
  | _ => .other

namespace Reactor

/-- accept4 is called again, or there is no connection. -/
def AcceptResult.idle : AcceptResult → Bool
  | interrupted => true
  | wouldBlock => true
  | _ => false

/-- The tokens that are in the table of `r'` and not in that of `r`. -/
def joined (r r' : Reactor) : List Nat := r'.sessions.keys.filter fun t => t ∉ r.sessions.keys

/-- The tokens that are in the table of `r` and not in that of `r'`. -/
def missing (r r' : Reactor) : List Nat := r.sessions.keys.filter fun t => t ∉ r'.sessions.keys

/-- The sessions of a table whose deadline is over. -/
def overdue (config : ReactorConfig) (r : Reactor) : List Nat :=
  Table.keys (r.sessions.filter fun e => expired config r.clock e.2)

/-- What the step from `r` to `r'` has done. -/
def outcomes (config : ReactorConfig) (r : Reactor) (handler : Handler) (r' : Reactor) : List Outcome :=
  match handler with
  | .accept result =>
    if r.listenersPaused ∨ result.idle then []
    else
      match r.joined r' with
      | [] => [.turnedAway]
      | tokens => tokens.map .opened
  | .broadcast => (r.missing r').map .overBudget
  | .sweep => (r.overdue config).map .expired
  | .other => []

end Reactor

/-- The counters of the steps against what the steps have done. A session that is opened was not there
before, and one that is ended was. -/
structure Posts (r : Reactor) (l : List Outcome) (r' : Reactor) : Prop where
  accepted : r'.accepted = r.accepted + (opened l).length
  rejected : r'.rejected = r.rejected + l.countP Outcome.rejects
  timeouts : r'.timeouts = r.timeouts + (timedOut l).length
  once : (opened l).Nodup
  opened : ∀ t ∈ opened l, r.nextToken ≤ t ∧ t ∈ r'.sessions.keys
  table : ∀ t ∈ r'.sessions.keys, t ∈ r.sessions.keys ∨ t ∈ Server.opened l
  left_once : (ended l).Nodup
  left : ∀ t ∈ ended l, t ∈ r.sessions.keys ∧ t ∈ r'.closed.keys
  kept : ∀ t ∈ r.sessions.keys, t ∈ r'.sessions.keys ∨ t ∈ r'.closed.keys
  closed : r.closed.keys ⊆ r'.closed.keys

/-- What a run has done against the sessions of its last state. Each session was opened once and ended
once at most. -/
structure Recorded (journal : List Outcome) (r : Reactor) : Prop where
  once : (opened journal).Nodup
  live : ∀ t ∈ r.sessions.keys, t ∈ opened journal
  opened : ∀ t ∈ opened journal, t ∈ r.sessions.keys ∨ t ∈ r.closed.keys
  ended_once : (ended journal).Nodup
  ended : ∀ t ∈ ended journal, t ∈ Server.opened journal ∧ t ∈ r.closed.keys

theorem Recorded.post {journal l : List Outcome} {r r' : Reactor} (h : Recorded journal r)
    (hc : r.Chronicle) (hp : Posts r l r') : Recorded (journal ++ l) r' := by
  have hlt : ∀ t ∈ Server.opened journal, t < r.nextToken := fun t ht =>
    (h.opened t ht).elim (hc.sessions_lt t) (hc.closed_lt t)
  refine ⟨?_, ?_, ?_, ?_, ?_⟩
  · rw [opened_append, List.nodup_append]
    refine ⟨h.once, hp.once, fun t ht t' ht' => ?_⟩
    exact ((hlt t ht).trans_le (hp.opened t' ht').1).ne
  · intro t ht
    rw [opened_append, List.mem_append]
    exact (hp.table t ht).imp_left (h.live t)
  · intro t ht
    rw [opened_append, List.mem_append] at ht
    rcases ht with ht | ht
    · rcases h.opened t ht with ht | ht
      · exact hp.kept t ht
      · exact .inr (hp.closed ht)
    · exact .inl (hp.opened t ht).2
  · rw [ended_append, List.nodup_append]
    refine ⟨h.ended_once, hp.left_once, fun t ht t' ht' heq => ?_⟩
    exact hc.apart t (h.ended t ht).2 (heq ▸ (hp.left t' ht').1)
  · intro t ht
    rw [ended_append, List.mem_append] at ht
    rw [opened_append, List.mem_append]
    rcases ht with ht | ht
    · exact ⟨.inl (h.ended t ht).1, hp.closed (h.ended t ht).2⟩
    · exact ⟨.inl (h.live t (hp.left t ht).1), (hp.left t ht).2⟩

/-- Some sessions have been closed, and nothing else has happened to the table. -/
structure Thinned (r r' : Reactor) : Prop where
  sessions : r'.sessions.keys.Sublist r.sessions.keys
  closed : ∀ t, t ∈ r'.closed.keys ↔
    t ∈ r.closed.keys ∨ t ∈ r.sessions.keys ∧ t ∉ r'.sessions.keys
  accepted : r'.accepted = r.accepted

namespace Thinned

variable {r r' r'' : Reactor} {l : List Outcome}

theorem refl (r : Reactor) : Thinned r r := ⟨.refl _, fun _ => by tauto, rfl⟩

theorem trans (h : Thinned r r') (h' : Thinned r' r'') : Thinned r r'' := by
  refine ⟨h'.sessions.trans h.sessions, fun t => ?_, h'.accepted.trans h.accepted⟩
  have hsub : t ∈ r'.sessions.keys → t ∈ r.sessions.keys := fun ht => h.sessions.subset ht
  have hsub' : t ∈ r''.sessions.keys → t ∈ r'.sessions.keys := fun ht => h'.sessions.subset ht
  rw [h'.closed, h.closed]
  tauto

/-- The outcomes end no other sessions than those that have been closed. -/
theorem posts (h : Thinned r r') (hopened : opened l = []) (honce : (ended l).Nodup)
    (hended : ended l ⊆ r.missing r') (hrejected : r'.rejected = r.rejected + l.countP Outcome.rejects)
    (htimeouts : r'.timeouts = r.timeouts + (timedOut l).length) : Posts r l r' := by
  have hmissing : ∀ t ∈ ended l, t ∈ r.sessions.keys ∧ t ∉ r'.sessions.keys := by
    intro t ht
    simpa [Reactor.missing] using hended ht
  refine ⟨?_, hrejected, htimeouts, ?_, ?_, fun t ht => .inl (h.sessions.subset ht), honce, ?_, ?_, ?_⟩
  · rw [hopened]
    exact h.accepted
  · rw [hopened]
    exact List.nodup_nil
  · rw [hopened]
    exact List.forall_mem_nil _
  · exact fun t ht => ⟨(hmissing t ht).1, (h.closed t).mpr (.inr (hmissing t ht))⟩
  · intro t ht
    by_cases hkept : t ∈ r'.sessions.keys
    · exact .inl hkept
    · exact .inr ((h.closed t).mpr (.inr ⟨ht, hkept⟩))
  · exact fun t ht => (h.closed t).mpr (.inl ht)

/-- Nothing is counted. -/
theorem silent (h : Thinned r r') (hrejected : r'.rejected = r.rejected)
    (htimeouts : r'.timeouts = r.timeouts) : Posts r [] r' :=
  h.posts rfl List.nodup_nil (List.nil_subset _) hrejected htimeouts

end Thinned

/-! ## The reactor -/

/-- The sums over the logs of all sessions. -/
structure Sums (r : Reactor) : Prop where
  dropped : r.dropped = Table.total (fun s => supersededOf s.log) (r.sessions ++ r.closed)
  bytesSent : r.bytesSent = Table.total (fun s => (sentOf s.log).length) (r.sessions ++ r.closed)

/-- Neither of them goes back. -/
structure Grows (r r' : Reactor) : Prop where
  dropped : r.dropped ≤ r'.dropped
  bytesSent : r.bytesSent ≤ r'.bytesSent

theorem Grows.refl (r : Reactor) : Grows r r := ⟨le_refl _, le_refl _⟩

theorem Grows.trans {r r' r'' : Reactor} (h : Grows r r') (h' : Grows r' r'') : Grows r r'' :=
  ⟨h.dropped.trans h'.dropped, h.bytesSent.trans h'.bytesSent⟩

namespace Reactor

variable {config : ReactorConfig} {r : Reactor} {token : Nat} {s s' : Session} {m' : Meter}

/-- A session that has changed and stays. -/
theorem sums_set (h : Sums r) (hn : r.sessions.keys.Nodup) (hg : r.sessions.get token = some s)
    (ht : Tallies r.toMeter s m' s') :
    Sums { r with toMeter := m', sessions := r.sessions.set token s' } := by
  have htotal : ∀ f : Session → Nat, Table.total f (r.sessions.set token s') + f s =
      Table.total f r.sessions + f s' := fun _ => Table.total_set hn hg
  have hdropped := htotal fun s => supersededOf s.log
  have hsent := htotal fun s => (sentOf s.log).length
  obtain ⟨hd, hb⟩ := h
  rw [Table.total_append] at hd hb
  have htd := ht.dropped
  have htb := ht.bytesSent
  constructor
  · rw [Table.total_append]
    simp only
    omega
  · rw [Table.total_append]
    simp only
    omega

/-- Close moves a session and changes no total. -/
theorem sums_left (h : Sums r) (hn : r.sessions.keys.Nodup) (token timeouts rejected : Nat) :
    Sums (close { r with timeouts, rejected } token) := by
  cases hg : r.sessions.get token with
  | none =>
      simp only [close, hg]
      exact ⟨h.dropped, h.bytesSent⟩
  | some s =>
      have hdropped := Table.total_erase (f := fun s : Session => supersededOf s.log) hn hg
      have hsent := Table.total_erase (f := fun s : Session => (sentOf s.log).length) hn hg
      obtain ⟨hd, hb⟩ := h
      rw [Table.total_append] at hd hb
      simp only [close, hg, unregister]
      constructor
      · rw [Table.total_append, Table.total_append, Table.total_cons, Table.total_nil]
        show r.dropped = Table.total _ (r.sessions.erase token) + (_ + (supersededOf s.log + 0))
        omega
      · rw [Table.total_append, Table.total_append, Table.total_cons, Table.total_nil]
        show r.bytesSent = Table.total _ (r.sessions.erase token) + (_ + ((sentOf s.log).length + 0))
        omega

/-- A session that Accept makes, whether it stays or not. -/
theorem sums_joined (h : Sums r) {fd : Nat} {streaming : Bool}
    (ht : Tallies r.toMeter (r.fresh fd streaming) m' s') (accepted rejected : Nat)
    {sessions closed : Table Nat Session} {nextToken : Nat} {epoll : List Registration}
    (hplace : (sessions = r.sessions ++ [(r.nextToken, s')] ∧ closed = r.closed) ∨
      (sessions = r.sessions ∧ closed = r.closed ++ [(r.nextToken, s')])) :
    Sums { r with
      toMeter := m', sessions, closed, accepted, rejected, nextToken, epoll
      issued := r.issued ++ [r.nextToken] } := by
  obtain ⟨hd, hb⟩ := h
  have htd := ht.dropped
  have htb := ht.bytesSent
  have hfresh : supersededOf (r.fresh fd streaming).log = 0 ∧
      (sentOf (r.fresh fd streaming).log).length = 0 := ⟨rfl, rfl⟩
  rw [hfresh.1] at htd
  rw [hfresh.2] at htb
  have htotal : ∀ f : Session → Nat, Table.total f (sessions ++ closed) =
      Table.total f (r.sessions ++ r.closed) + f s' := by
    intro f
    rcases hplace with ⟨rfl, rfl⟩ | ⟨rfl, rfl⟩ <;>
      simp only [Table.total_append, Table.total_cons, Table.total_nil] <;> omega
  constructor
  · show m'.dropped = Table.total _ (sessions ++ closed)
    rw [htotal]
    omega
  · show m'.bytesSent = Table.total _ (sessions ++ closed)
    rw [htotal]
    omega

theorem grows_close (r : Reactor) (token : Nat) : Grows r (r.close token) := by
  unfold close
  split
  · exact .refl r
  · exact ⟨le_refl _, le_refl _⟩

/-- What Close changes. -/
theorem close_thins (r : Reactor) (token : Nat) : Thinned r (r.close token) ∧
    (r.close token).rejected = r.rejected ∧ (r.close token).timeouts = r.timeouts := by
  unfold close
  cases hg : r.sessions.get token with
  | none => exact ⟨.refl r, rfl, rfl⟩
  | some s =>
      have hk := Table.mem_keys_of_get hg
      refine ⟨⟨Table.keys_erase_sublist, fun t => ?_, rfl⟩, rfl, rfl⟩
      show t ∈ Table.keys (r.closed ++ [(token, s)]) ↔
        t ∈ r.closed.keys ∨ t ∈ r.sessions.keys ∧ t ∉ (r.sessions.erase token).keys
      rw [Table.keys_append, List.mem_append, Table.mem_keys_erase]
      refine or_congr_right ⟨fun ht => ?_, fun ht => ?_⟩
      · obtain rfl := List.mem_singleton.mp ht
        exact ⟨hk, fun hne => hne.2 rfl⟩
      · exact List.mem_singleton.mpr (by_contra fun hne => ht.2 ⟨ht.1, hne⟩)

theorem length_close (hn : r.sessions.keys.Nodup) (hg : r.sessions.get token = some s) :
    (r.close token).sessions.length + 1 = r.sessions.length := by
  have hcount := Table.total_erase (f := fun _ : Session => 1) hn hg
  have hlength : ∀ t : Table Nat Session, Table.total (fun _ => 1) t = t.length := by
    intro t
    simp [Table.total]
  rw [hlength, hlength] at hcount
  simp only [close, hg, unregister]
  exact hcount

/-- What the ledger needs to know of the reactor. -/
structure Books (config : ReactorConfig) (r : Reactor) : Prop where
  accounts : r.Accounts config
  chronicle : r.Chronicle
  sums : Sums r

theorem Books.told (h : r.Books config) (hg : r.sessions.get token = some s) : s.Live r.clock :=
  h.chronicle.live _ (Table.mem_of_get hg)

/-! ## Accept -/

theorem sums_accept (h : Sums r) (latest : Option Published) (streaming : Bool)
    (result : AcceptResult) : Sums (r.accept config latest streaming result) ∧
      Grows r (r.accept config latest streaming result) := by
  have hsame : ∀ r' : Reactor, r'.toMeter = r.toMeter → r'.sessions = r.sessions →
      r'.closed = r.closed → Sums r' ∧ Grows r r' := by
    intro r' hm hs hc
    refine ⟨⟨?_, ?_⟩, ⟨(congrArg Meter.dropped hm).ge, (congrArg Meter.bytesSent hm).ge⟩⟩
    · rw [hm, hs, hc]
      exact h.dropped
    · rw [hm, hs, hc]
      exact h.bytesSent
  cases result with
  | interrupted | wouldBlock | exhausted | failed => exact hsame _ rfl rfl rfl
  | descriptor fd =>
      simp only [accept]
      split
      · exact hsame _ rfl rfl rfl
      · split
        · rename_i published
          have ht := Meter.tallies_enqueue (m := r.toMeter) (s := r.fresh fd true) rfl published.frame
          unfold fresh at ht
          split
          · rename_i s' m' he
            rw [he] at ht
            exact ⟨sums_joined h ht _ _ (.inl ⟨rfl, rfl⟩), ⟨ht.dropped_le, ht.bytesSent_le⟩⟩
          · rename_i s' m' he
            rw [he] at ht
            exact ⟨sums_joined h ht _ _ (.inr ⟨rfl, rfl⟩), ⟨ht.dropped_le, ht.bytesSent_le⟩⟩
        · exact ⟨sums_joined h (.refl _ (r.fresh fd streaming)) _ _ (.inl ⟨rfl, rfl⟩),
            ⟨le_refl _, le_refl _⟩⟩

/-- A session more in the table. -/
theorem joined_insert {r' : Reactor} (hlt : ∀ t ∈ r.sessions.keys, t < r.nextToken)
    (hs : r'.sessions.keys = r.sessions.keys ++ [r.nextToken]) : r.joined r' = [r.nextToken] := by
  have hnew : r.nextToken ∉ r.sessions.keys := fun hm => (hlt _ hm).false
  have hold : r.sessions.keys.filter (fun t => t ∉ r.sessions.keys) = [] := by
    simp
  rw [joined, hs, List.filter_append, hold, List.nil_append]
  simp [hnew]

theorem joined_same {r' : Reactor} (hs : r'.sessions = r.sessions) : r.joined r' = [] := by
  rw [joined, hs]
  simp

/-- Accept opens a session, turns somebody away or does nothing. -/
theorem posts_accept (h : r.Books config) (latest : Option Published) (streaming : Bool)
    (result : AcceptResult) (hp : r.listenersPaused = false) :
    Posts r (r.outcomes config (.accept result) (r.accept config latest streaming result))
      (r.accept config latest streaming result) := by
  have hidle : ∀ r' : Reactor, result.idle = true → r' = r →
      Posts r (r.outcomes config (.accept result) r') r' := by
    rintro r' hi rfl
    have hl : r'.outcomes config (.accept result) r' = [] := if_pos (.inr hi)
    rw [hl]
    exact (Thinned.refl r').silent rfl rfl
  -- Somebody is turned away: the table stays, and a session that was made is closed.
  have hturned : ∀ r' : Reactor, result.idle = false → r'.sessions = r.sessions →
      r.closed.keys ⊆ r'.closed.keys → r'.accepted = r.accepted → r'.rejected = r.rejected + 1 →
      r'.timeouts = r.timeouts → Posts r (r.outcomes config (.accept result) r') r' := by
    intro r' hi hs hc ha hr ht
    have hl : r.outcomes config (.accept result) r' = [.turnedAway] := by
      simp [outcomes, hp, hi, joined_same hs]
    rw [hl]
    exact ⟨ha, hr, ht, List.nodup_nil, List.forall_mem_nil _, fun t hm => .inl (hs ▸ hm), List.nodup_nil,
      List.forall_mem_nil _, fun t hm => .inl (hs ▸ hm), hc⟩
  have hopens : ∀ r' : Reactor, result.idle = false →
      r'.sessions.keys = r.sessions.keys ++ [r.nextToken] → r'.closed = r.closed →
      r'.accepted = r.accepted + 1 → r'.rejected = r.rejected → r'.timeouts = r.timeouts →
      Posts r (r.outcomes config (.accept result) r') r' := by
    intro r' hi hs hc ha hr ht
    have hl : r.outcomes config (.accept result) r' = [.opened r.nextToken] := by
      simp [outcomes, hp, hi, joined_insert h.chronicle.sessions_lt hs]
    rw [hl]
    have hnew : r.nextToken ∈ r'.sessions.keys := by simp [hs]
    refine ⟨ha, hr, ht, List.nodup_singleton _, List.forall_mem_singleton.mpr ⟨le_refl _, hnew⟩, ?_,
      List.nodup_nil, List.forall_mem_nil _, fun t hm => .inl (by simp [hs, hm]), by rw [hc]; exact fun _ => id⟩
    intro t hm
    rw [hs] at hm
    exact List.mem_append.mp hm
  cases result with
  | interrupted | wouldBlock => exact hidle _ rfl rfl
  | exhausted => exact hturned _ rfl rfl (List.Subset.refl _) rfl rfl rfl
  | failed => exact hturned _ rfl rfl (List.Subset.refl _) rfl rfl rfl
  | descriptor fd =>
      simp only [accept]
      split
      · exact hturned _ rfl rfl (List.Subset.refl _) rfl rfl rfl
      · split
        · split
          · exact hopens _ rfl (Table.keys_append _ _) rfl rfl rfl rfl
          · refine hturned _ rfl rfl ?_ rfl rfl rfl
            exact (Table.keys_append r.closed _).symm ▸ List.subset_append_left _ _
        · exact hopens _ rfl (Table.keys_append _ _) rfl rfl rfl rfl


/-! ## Broadcast and Sweep -/

/-- The session of a token has another value. -/
theorem set_thins (r : Reactor) (token : Nat) (m' : Meter) (s' : Session) (rejected : Nat) :
    Thinned r { r with toMeter := m', sessions := r.sessions.set token s', rejected } := by
  have hkeys : (r.sessions.set token s').keys = r.sessions.keys := Table.keys_set
  refine ⟨hkeys ▸ .refl _, fun t => ?_, rfl⟩
  rw [hkeys]
  tauto

/-- Each session that a broadcast closes is counted. -/
theorem broadcastTo_thins (published : Published) (hn : r.sessions.keys.Nodup) (token : Nat) :
    Thinned r (broadcastTo published r token) ∧
      (broadcastTo published r token).rejected + (broadcastTo published r token).sessions.length =
        r.rejected + r.sessions.length ∧
      (broadcastTo published r token).timeouts = r.timeouts := by
  unfold broadcastTo
  cases hg : r.sessions.get token with
  | none => exact ⟨.refl r, rfl, rfl⟩
  | some s =>
      simp only
      split
      · exact ⟨.refl r, rfl, rfl⟩
      · generalize (r.toMeter.enqueue s published.frame).2.2 = m'
        generalize (r.toMeter.enqueue s published.frame).2.1 = s'
        split
        · have hset := set_thins r token m' s' r.rejected
          refine ⟨⟨hset.sessions, hset.closed, hset.accepted⟩, ?_, rfl⟩
          exact congrArg (r.rejected + ·) (List.length_map _)
        · have hset := set_thins r token m' s' (r.rejected + 1)
          obtain ⟨hclosed, hrejected, htimeouts⟩ := close_thins
            { r with toMeter := m', sessions := r.sessions.set token s', rejected := r.rejected + 1 } token
          have hkeys : (r.sessions.set token s').keys.Nodup := by
            rw [Table.keys_set]
            exact hn
          have hlength := length_close
            (r := { r with
              toMeter := m', sessions := r.sessions.set token s', rejected := r.rejected + 1 })
            hkeys (Table.get_set_self (Table.mem_keys_of_get hg))
          have hsame : (r.sessions.set token s').length = r.sessions.length := List.length_map _
          refine ⟨hset.trans hclosed, ?_, htimeouts⟩
          rw [hrejected]
          dsimp only at hlength ⊢
          omega

theorem sweepOne_thins (config : ReactorConfig) (hn : r.sessions.keys.Nodup) (token : Nat) :
    Thinned r (sweepOne config r token) ∧
      (sweepOne config r token).timeouts + (sweepOne config r token).sessions.length =
        r.timeouts + r.sessions.length ∧
      (sweepOne config r token).rejected = r.rejected := by
  unfold sweepOne
  split
  · exact ⟨.refl r, rfl, rfl⟩
  · rename_i s hg
    split
    · have hcounted : Thinned r { r with timeouts := r.timeouts + 1 } := ⟨.refl _, fun _ => by tauto, rfl⟩
      obtain ⟨hclosed, hrejected, htimeouts⟩ :=
        close_thins { r with timeouts := r.timeouts + 1 } token
      have hlength := length_close (r := { r with timeouts := r.timeouts + 1 }) hn hg
      refine ⟨hcounted.trans hclosed, ?_, hrejected⟩
      rw [htimeouts]
      dsimp only at hlength ⊢
      omega
    · exact ⟨.refl r, rfl, rfl⟩

/-- A handler of one session after the other that counts each session it closes. -/
theorem thins_foldl {f : Reactor → Nat → Reactor} (counter other : Reactor → Nat)
    (hf : ∀ {r : Reactor} (token : Nat), r.sessions.keys.Nodup → Thinned r (f r token) ∧
      counter (f r token) + (f r token).sessions.length = counter r + r.sessions.length ∧
      other (f r token) = other r) (tokens : List Nat) (hn : r.sessions.keys.Nodup) :
    Thinned r (tokens.foldl f r) ∧
      counter (tokens.foldl f r) + (tokens.foldl f r).sessions.length =
        counter r + r.sessions.length ∧
      other (tokens.foldl f r) = other r := by
  induction tokens generalizing r with
  | nil => exact ⟨.refl r, rfl, rfl⟩
  | cons token tokens ih =>
      obtain ⟨hone, hcount, hother⟩ := hf token hn
      obtain ⟨hrest, hcounts, hothers⟩ := ih (hn.sublist hone.sessions)
      exact ⟨hone.trans hrest, hcounts.trans hcount, hothers.trans hother⟩

theorem missing_nodup (hn : r.sessions.keys.Nodup) (r' : Reactor) : (r.missing r').Nodup := hn.filter _

theorem length_missing {r' : Reactor} (h : Thinned r r') (hn : r.sessions.keys.Nodup) :
    (r.missing r').length + r'.sessions.length = r.sessions.length := by
  rw [← Table.length_keys, ← Table.length_keys]
  exact Table.length_missing hn h.sessions

theorem broadcast_thins (hn : r.sessions.keys.Nodup) (latest : Option Published) :
    Thinned r (r.broadcast latest) ∧
      (r.broadcast latest).rejected + (r.broadcast latest).sessions.length =
        r.rejected + r.sessions.length ∧
      (r.broadcast latest).timeouts = r.timeouts := by
  unfold broadcast
  split
  · exact ⟨.refl r, rfl, rfl⟩
  · rename_i published
    split
    · exact ⟨.refl r, rfl, rfl⟩
    · have hstart : Thinned r { r with lastSequence := published.sequence } :=
        ⟨.refl _, fun _ => by tauto, rfl⟩
      obtain ⟨hthin, hrest⟩ := thins_foldl Reactor.rejected Reactor.timeouts
        (fun token hn => broadcastTo_thins published hn token) r.sessions.keys
        (r := { r with lastSequence := published.sequence }) hn
      exact ⟨hstart.trans hthin, hrest⟩

theorem sweep_thins (config : ReactorConfig) (hn : r.sessions.keys.Nodup) :
    Thinned r (r.sweep config) ∧
      (r.sweep config).timeouts + (r.sweep config).sessions.length = r.timeouts + r.sessions.length ∧
      (r.sweep config).rejected = r.rejected := by
  obtain ⟨hthin, hcount, hother⟩ := thins_foldl Reactor.timeouts Reactor.rejected
    (fun token hn => sweepOne_thins config hn token) r.sessions.keys hn
  unfold sweep
  simp only
  split
  · exact ⟨⟨hthin.sessions, hthin.closed, hthin.accepted⟩, hcount, hother⟩
  · exact ⟨hthin, hcount, hother⟩

/-- Sweep closes the sessions whose deadline is over. -/
theorem missing_sweep (config : ReactorConfig) (hn : r.sessions.keys.Nodup) :
    r.missing (r.sweep config) = r.overdue config := by
  unfold missing overdue
  rw [Table.keys, Table.keys, List.filter_map]
  refine congrArg (List.map Prod.fst) (List.filter_congr fun e he => ?_)
  have hget := System.get_sweep config r e.1
  rw [Table.get_of_mem hn he, Option.filter_some] at hget
  have hgone : e.1 ∉ (r.sweep config).sessions.keys ↔ expired config r.clock e.2 = true := by
    rw [← Table.get_eq_none, hget]
    cases expired config r.clock e.2 <;> simp
  exact Bool.eq_iff_iff.mpr (decide_eq_true_iff.trans hgone)

theorem posts_broadcast (hn : r.sessions.keys.Nodup) (latest : Option Published) :
    Posts r (r.outcomes config .broadcast (r.broadcast latest)) (r.broadcast latest) := by
  obtain ⟨hthin, hcount, htimeouts⟩ := broadcast_thins hn latest
  have hlength := length_missing hthin hn
  have hended : ended ((r.missing (r.broadcast latest)).map .overBudget) =
      r.missing (r.broadcast latest) := filterMap_map_some _ fun _ => rfl
  have hall : ((r.missing (r.broadcast latest)).map Outcome.overBudget).countP Outcome.rejects =
      (r.missing (r.broadcast latest)).length := by
    rw [List.countP_eq_length.mpr, List.length_map]
    exact List.forall_mem_map.mpr fun _ _ => rfl
  have hexpired : timedOut ((r.missing (r.broadcast latest)).map .overBudget) = [] :=
    filterMap_map_none _ fun _ => rfl
  refine hthin.posts (filterMap_map_none _ fun _ => rfl) ?_ ?_ ?_ ?_
  · rw [outcomes, hended]
    exact missing_nodup hn _
  · rw [outcomes, hended]
    exact List.Subset.refl _
  · rw [outcomes, hall]
    omega
  · rw [outcomes, hexpired]
    exact htimeouts

theorem posts_sweep (hn : r.sessions.keys.Nodup) :
    Posts r (r.outcomes config .sweep (r.sweep config)) (r.sweep config) := by
  obtain ⟨hthin, hcount, hrejected⟩ := sweep_thins config hn
  have hlength := length_missing hthin hn
  rw [missing_sweep config hn] at hlength
  have hended : ended ((r.overdue config).map .expired) = r.overdue config :=
    filterMap_map_some _ fun _ => rfl
  have hnone : ((r.overdue config).map Outcome.expired).countP Outcome.rejects = 0 := by
    rw [List.countP_eq_zero]
    exact List.forall_mem_map.mpr fun _ _ => Bool.false_ne_true
  have hexpired : timedOut ((r.overdue config).map .expired) = r.overdue config :=
    filterMap_map_some _ fun _ => rfl
  refine hthin.posts (filterMap_map_none _ fun _ => rfl) ?_ ?_ ?_ ?_
  · rw [outcomes, hended, ← missing_sweep config hn]
    exact missing_nodup hn _
  · rw [outcomes, hended, missing_sweep config hn]
    exact List.Subset.refl _
  · rw [outcomes, hnone]
    exact hrejected
  · rw [outcomes, hexpired]
    omega

/-- The turn of one session in a broadcast. -/
theorem sums_broadcastTo (h : r.Books config) (published : Published) (token : Nat) :
    Sums (broadcastTo published r token) ∧ Grows r (broadcastTo published r token) := by
  cases hg : r.sessions.get token with
  | none =>
      simp only [broadcastTo, hg]
      exact ⟨h.sums, .refl r⟩
  | some s =>
      cases hstream : s.streaming with
      | false =>
          have hsame : broadcastTo published r token = r := by simp [broadcastTo, hg, hstream]
          rw [hsame]
          exact ⟨h.sums, .refl r⟩
      | true =>
          have ht := Meter.tallies_enqueue (m := r.toMeter) (h.told hg).told.queue published.frame
          have hset := sums_set h.sums h.accounts.distinct hg ht
          simp only [broadcastTo, hg, hstream, Bool.not_true, Bool.false_eq_true, ↓reduceIte]
          split
          · exact ⟨⟨hset.dropped, hset.bytesSent⟩, ⟨ht.dropped_le, ht.bytesSent_le⟩⟩
          · have hn : (r.sessions.set token (r.toMeter.enqueue s published.frame).2.1).keys.Nodup := by
              rw [Table.keys_set]
              exact h.accounts.distinct
            refine ⟨sums_left hset hn token _ _, Grows.trans ?_ (grows_close _ token)⟩
            exact ⟨ht.dropped_le, ht.bytesSent_le⟩

/-- A handler that keeps the books over one session keeps them over all of them. -/
theorem books_foldl {f : Reactor → Nat → Reactor}
    (hf : ∀ {r : Reactor} (token : Nat), r.Books config →
      (f r token).Books config ∧ Grows r (f r token)) (tokens : List Nat) (h : r.Books config) :
    (tokens.foldl f r).Books config ∧ Grows r (tokens.foldl f r) := by
  induction tokens generalizing r with
  | nil => exact ⟨h, .refl r⟩
  | cons token tokens ih =>
      obtain ⟨hbooks, hgrows⟩ := hf token h
      obtain ⟨hbooks', hgrows'⟩ := ih hbooks
      exact ⟨hbooks', hgrows.trans hgrows'⟩

theorem sums_broadcast (h : r.Books config) (latest : Option Published) :
    Sums (r.broadcast latest) ∧ Grows r (r.broadcast latest) := by
  cases latest with
  | none => exact ⟨h.sums, .refl r⟩
  | some published =>
      simp only [broadcast]
      split
      · exact ⟨h.sums, .refl r⟩
      · have hstart : Books config { r with lastSequence := published.sequence } :=
          ⟨h.accounts, h.chronicle, ⟨h.sums.dropped, h.sums.bytesSent⟩⟩
        obtain ⟨hbooks, hgrows⟩ := books_foldl (fun token hb =>
          ⟨⟨accounts_broadcastTo hb.accounts published token,
            chronicle_broadcastTo hb.chronicle published token, (sums_broadcastTo hb published token).1⟩,
            (sums_broadcastTo hb published token).2⟩) r.sessions.keys hstart
        exact ⟨hbooks.sums, ⟨hgrows.dropped, hgrows.bytesSent⟩⟩

theorem sums_sweepOne (h : r.Books config) (token : Nat) :
    Sums (sweepOne config r token) ∧ Grows r (sweepOne config r token) := by
  unfold sweepOne
  split
  · exact ⟨h.sums, .refl r⟩
  · split
    · refine ⟨sums_left h.sums h.accounts.distinct token _ _, Grows.trans ?_ (grows_close _ token)⟩
      exact ⟨le_refl _, le_refl _⟩
    · exact ⟨h.sums, .refl r⟩

theorem sums_sweep (h : r.Books config) : Sums (r.sweep config) ∧ Grows r (r.sweep config) := by
  obtain ⟨hbooks, hgrows⟩ := books_foldl (f := sweepOne config) (fun token hb =>
    ⟨⟨accounts_sweepOne hb.accounts token, chronicle_sweepOne hb.chronicle token,
      (sums_sweepOne hb token).1⟩, (sums_sweepOne hb token).2⟩) r.sessions.keys h
  unfold sweep
  simp only
  split
  · exact ⟨⟨hbooks.sums.dropped, hbooks.sums.bytesSent⟩, ⟨hgrows.dropped, hgrows.bytesSent⟩⟩
  · exact ⟨hbooks.sums, hgrows⟩

/-! ## The session branch -/

theorem sums_handle (h : r.Books config) (limit : Buffer) (route : Bytes → Buffer) (token : Nat)
    (ready : Ready) (recvs : List RecvResult) (sends : List SendResult) :
    Sums (r.handle limit route token ready recvs sends) ∧
      Grows r (r.handle limit route token ready recvs sends) := by
  cases hg : r.sessions.get token with
  | none =>
      simp only [handle, hg]
      exact ⟨h.sums, .refl r⟩
  | some s =>
      have ht := Meter.tallies_serve (m := r.toMeter) limit route token ready recvs sends
        (h.told hg).told.queue
      have hset := sums_set h.sums h.accounts.distinct hg ht
      rw [Meter.handle_eq limit route ready recvs sends hg]
      simp only
      split
      · exact ⟨⟨hset.dropped, hset.bytesSent⟩, ⟨ht.dropped_le, ht.bytesSent_le⟩⟩
      · have hn : (r.sessions.set token (Meter.serve limit route token ready recvs sends s
            r.toMeter).2.1).keys.Nodup := by
          rw [Table.keys_set]
          exact h.accounts.distinct
        refine ⟨sums_left hset hn token _ _, Grows.trans ?_ (grows_close _ _)⟩
        exact ⟨ht.dropped_le, ht.bytesSent_le⟩

/-- What becomes of a session between two frames counts nowhere. -/
theorem posts_handle (r : Reactor) (limit : Buffer) (route : Bytes → Buffer) (token : Nat)
    (ready : Ready) (recvs : List RecvResult) (sends : List SendResult) :
    Posts r [] (r.handle limit route token ready recvs sends) := by
  cases hg : r.sessions.get token with
  | none =>
      simp only [handle, hg]
      exact (Thinned.refl r).silent rfl rfl
  | some s =>
      rw [Meter.handle_eq limit route ready recvs sends hg]
      generalize Meter.serve limit route token ready recvs sends s r.toMeter = served
      have hset := set_thins r token served.2.2 served.2.1 r.rejected
      simp only
      split
      · exact Thinned.silent ⟨hset.sessions, hset.closed, hset.accepted⟩ rfl rfl
      · obtain ⟨hclosed, hrejected, htimeouts⟩ := close_thins
          { r with toMeter := served.2.2, sessions := r.sessions.set token served.2.1 } token
        exact (hset.trans hclosed).silent hrejected htimeouts

end Reactor

namespace System

variable {config : ReactorConfig} {s s' : System}

theorem sums_acts {latest : Option Published} {r r' : Reactor} {event : Event}
    (ha : Acts config latest r event r') (h : r.Books config) : Sums r' ∧ Grows r r' := by
  obtain ⟨hd, hb⟩ := h.sums
  cases ha with
  | paused => exact ⟨h.sums, .refl r⟩
  | accept streaming result => exact Reactor.sums_accept h.sums latest streaming result
  | handle token ready recvs sends limit route =>
      exact Reactor.sums_handle h limit route token ready recvs sends
  | notification => exact Reactor.sums_broadcast h latest
  | timerBroadcast => exact Reactor.sums_broadcast h latest
  | sweep => exact Reactor.sums_sweep h
  | rehash i =>
      have hp := (swapAt_perm i r.sessions).symm.append_right r.closed
      exact ⟨⟨hd.trans (Table.total_perm hp), hb.trans (Table.total_perm hp)⟩, ⟨le_refl _, le_refl _⟩⟩
  | elapse n => exact ⟨⟨hd, hb⟩, ⟨le_refl _, le_refl _⟩⟩
  | shutdown =>
      have hp : (r.sessions ++ r.closed).Perm ([] ++ (r.closed ++ r.sessions)) := List.perm_append_comm
      exact ⟨⟨hd.trans (Table.total_perm hp), hb.trans (Table.total_perm hp)⟩, ⟨le_refl _, le_refl _⟩⟩

theorem posts_acts {latest : Option Published} {r r' : Reactor} {event : Event}
    (ha : Acts config latest r event r') (h : r.Books config) :
    Posts r (r.outcomes config event.handler r') r' := by
  have hn := h.accounts.distinct
  cases ha with
  | paused streaming result hp =>
      have hl : r.outcomes config (.accept result) r = [] := if_pos (.inl hp)
      rw [Event.handler, hl]
      exact (Thinned.refl r).silent rfl rfl
  | accept streaming result hp =>
      exact Reactor.posts_accept h latest streaming result (Bool.eq_false_iff.mpr hp)
  | handle token ready recvs sends limit route =>
      exact Reactor.posts_handle r limit route token ready recvs sends
  | notification => exact Reactor.posts_broadcast hn latest
  | timerBroadcast => exact Reactor.posts_broadcast hn latest
  | sweep => exact Reactor.posts_sweep hn
  | rehash i =>
      have hp : (Table.keys (swapAt i r.sessions)).Perm r.sessions.keys :=
        (swapAt_perm i r.sessions).map Prod.fst
      exact ⟨rfl, rfl, rfl, List.nodup_nil, List.forall_mem_nil _, fun t ht => .inl (hp.subset ht),
        List.nodup_nil, List.forall_mem_nil _, fun t ht => .inl (hp.symm.subset ht),
        List.Subset.refl _⟩
  | elapse n => exact Thinned.silent ⟨.refl _, fun _ => by tauto, rfl⟩ rfl rfl
  | shutdown =>
      refine Thinned.silent ⟨List.nil_sublist _, fun t => ?_, rfl⟩ rfl rfl
      show t ∈ Table.keys (r.closed ++ r.sessions) ↔ t ∈ r.closed.keys ∨ t ∈ r.sessions.keys ∧ t ∉ []
      rw [Table.keys_append, List.mem_append]
      simp

/-- A handler keeps the books, and its outcomes say what it counts. -/
theorem books_acts {latest : Option Published} {r r' : Reactor} {event : Event}
    (ha : Acts config latest r event r') (h : r.Books config) :
    r'.Books config ∧ Grows r r' ∧ Posts r (r.outcomes config event.handler r') r' := by
  obtain ⟨hsums, hgrows⟩ := sums_acts ha h
  exact ⟨⟨accounts_acts ha h.accounts, chronicle_acts ha h.chronicle, hsums⟩, hgrows, posts_acts ha h⟩

/-- A step in which no handler runs. -/
theorem books_idle {r : Reactor} {handler : Handler} (hhandler : handler = .other) (h : r.Books config) :
    r.Books config ∧ Grows r r ∧ Posts r (r.outcomes config handler r) r := by
  rw [hhandler]
  exact ⟨h, .refl r, (Thinned.refl r).silent rfl rfl⟩

theorem books_step {e : Event} (hs : Step config s e s') (h : s.reactor.Books config) :
    s'.reactor.Books config ∧ Grows s.reactor s'.reactor ∧
      Posts s.reactor (s.reactor.outcomes config e.handler s'.reactor) s'.reactor := by
  have hworks : e.works = true → e.handler = .other := by cases e <;> simp [Event.works, Event.handler]
  rcases step_parts hs with ⟨hw, hr, -⟩ | ⟨hw, hr, -⟩ | ⟨ha, -⟩
  · rw [hr]
    exact books_idle (hworks hw) h
  · rw [hr]
    exact books_idle (hworks hw) h
  · exact books_acts ha h

end System

/-! ## Runs -/

/-- The counters against what the steps of a run have done and against the logs of all sessions. -/
structure Ledger (journal : List Outcome) (r : Reactor) : Prop where
  accepted : r.accepted = (opened journal).length
  rejected : r.rejected = journal.countP Outcome.rejects
  timeouts : r.timeouts = (timedOut journal).length
  queued : r.queuedBytes = r.sessions.total fun s => s.output.bytes
  dropped : r.dropped = Table.total (fun s => supersededOf s.log) (r.sessions ++ r.closed)
  bytesSent : r.bytesSent = Table.total (fun s => (sentOf s.log).length) (r.sessions ++ r.closed)
  recorded : Recorded journal r

/-- No counter goes back. -/
structure Counts (r r' : Reactor) : Prop where
  accepted : r.accepted ≤ r'.accepted
  rejected : r.rejected ≤ r'.rejected
  timeouts : r.timeouts ≤ r'.timeouts
  dropped : r.dropped ≤ r'.dropped
  bytesSent : r.bytesSent ≤ r'.bytesSent

section

variable {config : ReactorConfig} {r r' : Reactor} {journal l : List Outcome}

theorem ledger_init (a b c d e : Nat) : Ledger [] (Reactor.init a b c d e) :=
  ⟨rfl, rfl, rfl, rfl, rfl, rfl, List.nodup_nil, List.forall_mem_nil _, List.forall_mem_nil _,
    List.nodup_nil, List.forall_mem_nil _⟩

theorem Reactor.books_init (a b c d e : Nat) : (Reactor.init a b c d e).Books config :=
  ⟨accounts_init _ _ _ _ _, chronicle_init _ _ _ _ _, rfl, rfl⟩

theorem Ledger.post (h : Ledger journal r) (hb : r.Books config) (hb' : r'.Books config)
    (hp : Posts r l r') : Ledger (journal ++ l) r' := by
  refine ⟨?_, ?_, ?_, hb'.accounts.queued, hb'.sums.dropped, hb'.sums.bytesSent,
    h.recorded.post hb.chronicle hp⟩
  · rw [hp.accepted, h.accepted, opened_append, List.length_append]
  · rw [hp.rejected, h.rejected, List.countP_append]
  · rw [hp.timeouts, h.timeouts, timedOut_append, List.length_append]

theorem Posts.counts (h : Posts r l r') (hg : Grows r r') : Counts r r' :=
  ⟨h.accepted.ge.trans' (Nat.le_add_right _ _), h.rejected.ge.trans' (Nat.le_add_right _ _),
    h.timeouts.ge.trans' (Nat.le_add_right _ _), hg.dropped, hg.bytesSent⟩

end

namespace System

/-- What the steps of the transport have done. -/
def journal (config : ReactorConfig) : System → List Event → List Outcome :=
  gather (step config) fun s e s' => s.reactor.outcomes config e.handler s'.reactor

variable {config : ReactorConfig} {s : System}
  {httpListener streamListener signalFd notificationFd timer : Nat} {es : List Event}

theorem books_run
    (hr : Run (Step config) (init httpListener streamListener signalFd notificationFd timer) es s) :
    s.reactor.Books config :=
  hr.invariant (I := fun s => s.reactor.Books config) (Reactor.books_init _ _ _ _ _) fun h hs =>
    (books_step hs h).1

theorem ledger_run
    (hr : Run (Step config) (init httpListener streamListener signalFd notificationFd timer) es s) :
    Ledger (journal config (init httpListener streamListener signalFd notificationFd timer) es)
      s.reactor := by
  refine (hr.gathered (I := fun l s => s.reactor.Books config ∧ Ledger l s.reactor)
    ⟨Reactor.books_init _ _ _ _ _, ledger_init _ _ _ _ _⟩ ?_).2
  intro l s e s' ⟨hb, hl⟩ hs
  obtain ⟨hb', -, hp⟩ := books_step hs hb
  exact ⟨hb', hl.post hb hb' hp⟩

/-- In every run the counters are what the run has done: the sessions it has opened, the connections
and the subscribers it has turned away, the deadlines, the frames superseded and the bytes sent, of
sessions live and closed. The bytes queued are those of the live sessions. No other counter goes back. -/
theorem counters_exact
    (hr : Run (Step config) (init httpListener streamListener signalFd notificationFd timer) es s) :
    Ledger (journal config (init httpListener streamListener signalFd notificationFd timer) es)
        s.reactor ∧
      (∀ e ∈ s.reactor.sessions ++ s.reactor.closed,
        sentOn s.reactor.wire e.1 = sentOf e.2.log) ∧
      ∀ e s', Step config s e s' → Counts s.reactor s'.reactor := by
  have hb := books_run hr
  refine ⟨ledger_run hr, hb.chronicle.wire, fun e s' hs => ?_⟩
  obtain ⟨-, hgrows, hposts⟩ := books_step hs hb
  exact hposts.counts hgrows

/-- The second generation supersedes the first, which was never started; the subscriber takes a byte,
the next connection fails, and the subscriber is left until its deadline is over. -/
def superseded : List Event :=
  [.publish twoBytes, .accept true (.descriptor 9), .notify, .publish twoBytes, .notify, .notification,
    sendEvent 1, .accept false .failed, .elapse 60000000000, .sweep]

theorem counters_exact_superseded : ∃ s,
    follow (step {}) (init 3 4 5 6 7) superseded = some s ∧
    journal {} (init 3 4 5 6 7) superseded = [.opened 16, .turnedAway, .expired 16] ∧
    Ledger [.opened 16, .turnedAway, .expired 16] s.reactor ∧
    s.reactor.dropped = 1 ∧ s.reactor.bytesSent = 1 := by
  have hf : follow (step {}) (init 3 4 5 6 7) superseded =
      some ((follow (step {}) (init 3 4 5 6 7) superseded).getD (init 3 4 5 6 7)) := rfl
  have hj : journal {} (init 3 4 5 6 7) superseded = [.opened 16, .turnedAway, .expired 16] := by
    decide +kernel
  have hl := (counters_exact (run_of_follow hf)).1
  rw [hj] at hl
  exact ⟨_, hf, hj, hl, rfl, rfl⟩

end System
end WebHtop.Server
