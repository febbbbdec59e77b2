import WebHtop.Server.Reactor

/-!
# The byte budget is an exact sum

`queued_bytes_` is changed in five places and never recomputed. The handlers work
on one session at a time, so the unit of the proof is a session taken out of the
table: the meter then holds what the other sessions hold plus its own bytes.
-/

namespace WebHtop.Server

open WebHtop.Lib

theorem kQueueBudget_eq : kQueueBudget = 67108864 := by simp [kQueueBudget]

namespace OutputQueue

theorem bytes_push {q : OutputQueue} (hq : q.Valid) (b : Buffer) :
    (q.push b).2.bytes ≤ q.bytes + b.bytes.length := by
  unfold push
  cases hc : q.current with
  | none => simp [bytes, hc, (hq.idle hc).1]
  | some c =>
      by_cases ho : q.offset = 0
      · have hp : q.pending = none := by
          by_contra h
          have := hq.pending_started h
          omega
        simp only [ho, ↓reduceIte, bytes, hp]
        omega
      · simp only [ho, ↓reduceIte, bytes, hc]
        omega

end OutputQueue

namespace Session

/-- A session whose queue has taken a buffer at `clock`. -/
def pushed (s : Session) (clock : Nat) (b : Buffer) : Session :=
  { s with
    output := (s.output.push b).2
    lastProgress := if s.output.empty then clock else s.lastProgress
    log := s.log ++ [(clock, .enqueued b)] }

/-- A session whose queue was emptied over the budget. -/
def refused (s : Session) (clock : Nat) (b : Buffer) : Session :=
  { s with
    output := {}
    lastProgress := if s.output.empty then clock else s.lastProgress
    log := s.log ++ [(clock, .enqueued b)] ++ [(clock, .refused)] }

@[simp] theorem pushed_streaming (s : Session) (clock : Nat) (b : Buffer) :
    (s.pushed clock b).streaming = s.streaming := rfl

@[simp] theorem refused_streaming (s : Session) (clock : Nat) (b : Buffer) :
    (s.refused clock b).streaming = s.streaming := rfl

end Session

namespace Meter

@[simp] theorem subtract_clock (m : Meter) (n : Nat) : (m.subtract n).clock = m.clock := rfl
@[simp] theorem subtract_wire (m : Meter) (n : Nat) : (m.subtract n).wire = m.wire := rfl
@[simp] theorem add_clock (m : Meter) (n : Nat) : (m.add n).clock = m.clock := rfl
@[simp] theorem add_wire (m : Meter) (n : Nat) : (m.add n).wire = m.wire := rfl
@[simp] theorem add_underflow (m : Meter) (n : Nat) : (m.add n).underflow = m.underflow := rfl

theorem subtract_exact {m : Meter} {n : Nat} (h : n ≤ m.queuedBytes) :
    (m.subtract n).queuedBytes = m.queuedBytes - n ∧ (m.subtract n).underflow = m.underflow := by
  have hn : ¬ m.queuedBytes < n := by omega
  constructor
  · exact sub64_eq h
  · simp [subtract, hn]

/-- `m` holds `rest` bytes for the other sessions and, exactly, those of `s`. -/
structure Charged (rest : Nat) (m : Meter) (s : Session) : Prop where
  queued : m.queuedBytes = rest + s.output.bytes
  budget : m.queuedBytes ≤ kQueueBudget
  exact : m.underflow = false
  valid : s.output.Valid

variable {rest : Nat} {m : Meter} {s : Session}

theorem Charged.of_output {s' : Session} (h : Charged rest m s) (he : s'.output = s.output) :
    Charged rest m s' := ⟨he ▸ h.queued, h.budget, h.exact, he ▸ h.valid⟩

/-- Push replaces what the session was charged by what it holds now. The sum cannot
wrap: the other sessions are within the budget and one string is below 2^63. -/
theorem charge_queued (h : Charged rest m s) (b : Buffer) :
    (m.charge s.output b).queuedBytes = rest + (s.output.push b).2.bytes ∧
      (m.charge s.output b).underflow = false := by
  obtain ⟨hq, hbud, hex, hv⟩ := h
  rw [kQueueBudget_eq] at hbud
  have hpush := OutputQueue.bytes_push hv b
  have hlt := b.size_lt
  unfold charge
  generalize hc : (if (s.output.push b).1 then { m with dropped := m.dropped + 1 } else m) = counted
  have hcq : counted.queuedBytes = m.queuedBytes := by rw [← hc]; split <;> rfl
  have hcu : counted.underflow = false := by rw [← hc]; split <;> exact hex
  obtain ⟨hsub, hsubu⟩ := subtract_exact (m := counted) (n := s.output.bytes) (by omega)
  constructor
  · change add64 (counted.subtract s.output.bytes).queuedBytes (s.output.push b).2.bytes = _
    rw [hsub, add64_eq (by omega)]
    omega
  · exact hsubu.trans hcu

theorem charge_clock (m : Meter) (q : OutputQueue) (b : Buffer) :
    (m.charge q b).clock = m.clock := by
  unfold charge
  split <;> rfl

/-- The two outcomes of Enqueue: over the budget it drops the queue of the session
and undoes the charge, else the pushed queue stands. -/
theorem enqueue_cases (m : Meter) (s : Session) (b : Buffer) :
    (kQueueBudget < (m.charge s.output b).queuedBytes ∧
      m.enqueue s b =
        (false, s.refused m.clock b, (m.charge s.output b).subtract (s.output.push b).2.bytes)) ∨
    ((m.charge s.output b).queuedBytes ≤ kQueueBudget ∧
      m.enqueue s b = (true, s.pushed m.clock b, m.charge s.output b)) := by
  have hclock := charge_clock m s.output b
  by_cases hover : (m.charge s.output b).queuedBytes > kQueueBudget
  · exact .inl ⟨hover, by simp only [enqueue, hover, ↓reduceIte, hclock, Session.refused]⟩
  · exact .inr ⟨Nat.le_of_not_lt hover,
      by simp only [enqueue, hover, ↓reduceIte, hclock, Session.pushed]⟩

@[simp] theorem charge_wire (m : Meter) (q : OutputQueue) (b : Buffer) :
    (m.charge q b).wire = m.wire := by
  unfold charge
  split <;> rfl

@[simp] theorem enqueue_wire (m : Meter) (s : Session) (b : Buffer) :
    (m.enqueue s b).2.2.wire = m.wire := by
  rcases enqueue_cases m s b with ⟨_, he⟩ | ⟨_, he⟩ <;> simp [he]

/-- Enqueue charges the new bytes, and undoes the charge when it refuses. -/
theorem charged_enqueue (h : Charged rest m s) {b : Buffer} (hb : b.bytes ≠ []) :
    Charged rest (m.enqueue s b).2.2 (m.enqueue s b).2.1 := by
  obtain ⟨hch, hcu⟩ := charge_queued h b
  have hbud := h.budget
  have hq := h.queued
  rcases enqueue_cases m s b with ⟨_, he⟩ | ⟨hle, he⟩
  · obtain ⟨hback, hbacku⟩ := subtract_exact (m := m.charge s.output b)
      (n := (s.output.push b).2.bytes) (by omega)
    have hrest : ((m.charge s.output b).subtract (s.output.push b).2.bytes).queuedBytes = rest := by
      omega
    rw [he]
    exact ⟨hrest, le_of_eq_of_le hrest (by omega), hbacku.trans hcu, OutputQueue.valid_empty⟩
  · rw [he]
    exact ⟨hch, hle, hcu, OutputQueue.valid_push h.valid hb⟩

theorem enqueue_refused {b : Buffer} (h : (m.enqueue s b).1 = false) :
    (m.enqueue s b).2.1.output = {} := by
  rcases enqueue_cases m s b with ⟨_, he⟩ | ⟨_, he⟩
  · rw [he]
    rfl
  · simp [he] at h

theorem charged_read (limit : Buffer) (route : Bytes → Buffer) (tries : Nat)
    (recvs : List RecvResult) (h : Charged rest m s) :
    Charged rest (readLoop limit route tries recvs s m).2.2
      (readLoop limit route tries recvs s m).2.1 := by
  induction recvs generalizing tries s with
  | nil => cases tries <;> exact h
  | cons result results ih =>
      cases tries with
      | zero => exact h
      | succ tries =>
          match result with
          | .interrupted => exact ih tries h
          | .wouldBlock => exact h
          | .failed => exact h
          | .data [] => exact h
          | .data (c :: cs) =>
              simp only [readLoop]
              split
              · exact ih tries (h.of_output rfl)
              · rename_i response _
                by_cases hr : response.bytes = []
                · simp only [hr, ↓reduceIte]
                  exact ih tries (h.of_output rfl)
                · simp only [hr, ↓reduceIte]
                  exact charged_enqueue (s := { s with responding := true, request := [], log := _ })
                    (b := { response with sequence := none }) (h.of_output rfl) hr

theorem charged_write (token : Nat) (budget : Nat) (sends : List SendResult)
    (h : Charged rest m s) :
    Charged rest (writeLoop token budget sends s m).2.2
      (writeLoop token budget sends s m).2.1 := by
  induction sends generalizing budget s m with
  | nil => exact h
  | cons result results ih =>
      simp only [writeLoop]
      split
      · exact h
      · match result with
        | .interrupted => exact ih budget h
        | .wouldBlock => exact h
        | .failed => exact h
        | .accepted size elapsed =>
            simp only
            split
            · exact h
            · split
              · exact h
              · rename_i output ho
                have hb := OutputQueue.bytes_consume h.valid ho
                have hbudget : kQueueBudget = 67108864 := kQueueBudget_eq
                have hq := h.queued
                have hle := h.budget
                obtain ⟨hsub, hsubu⟩ := subtract_exact (m := m)
                  (n := min size (min s.output.front.length budget)) (by omega)
                refine ih _ ⟨?_, ?_, hsubu.trans h.exact, OutputQueue.valid_consume h.valid ho⟩
                · simp only [hsub]
                  omega
                · simp only [hsub]
                  omega

end Meter

open Meter

/-- What the reactor's counters say about its table of sessions. -/
structure Accounted (config : ReactorConfig) (m : Meter) (sessions : Table Nat Session)
    (nextToken : Nat) (issued : List Nat) : Prop where
  queued : m.queuedBytes = Table.total (fun s => s.output.bytes) sessions
  budget : m.queuedBytes ≤ kQueueBudget
  exact : m.underflow = false
  valid : ∀ e ∈ sessions, e.2.output.Valid
  clients : sessions.length ≤ config.maxClients
  distinct : sessions.keys.Nodup
  keys_lt : ∀ t ∈ sessions.keys, t < nextToken
  issued_nodup : issued.Nodup
  issued_lt : ∀ t ∈ issued, t < nextToken

/-- The accounting of a whole reactor. -/
def Reactor.Accounts (config : ReactorConfig) (r : Reactor) : Prop :=
  Accounted config r.toMeter r.sessions r.nextToken r.issued

namespace Accounted

variable {config : ReactorConfig} {m : Meter} {sessions : Table Nat Session} {nextToken : Nat}
  {issued : List Nat} {token : Nat} {s : Session}

/-- Take a session out of the table. -/
theorem out (h : Accounted config m sessions nextToken issued)
    (hg : sessions.get token = some s) :
    Charged (m.queuedBytes - s.output.bytes) m s := by
  have hle := Table.le_total (f := fun s : Session => s.output.bytes) hg
  have hq := h.queued
  exact ⟨by omega, h.budget, h.exact, h.valid _ (Table.mem_of_get hg)⟩

/-- Put a session back after its queue changed. -/
theorem back (h : Accounted config m sessions nextToken issued)
    (hg : sessions.get token = some s) {m' : Meter} {s' : Session}
    (hc : Charged (m.queuedBytes - s.output.bytes) m' s') :
    Accounted config m' (sessions.set token s') nextToken issued := by
  have hk := Table.mem_keys_of_get hg
  have hle := Table.le_total (f := fun s : Session => s.output.bytes) hg
  have hset : Table.total (fun s => s.output.bytes) (sessions.set token s') + s.output.bytes =
      Table.total (fun s => s.output.bytes) sessions + s'.output.bytes :=
    Table.total_set h.distinct hg
  have hq := h.queued
  have hq' := hc.queued
  refine ⟨by omega, hc.budget, hc.exact, ?_, ?_, ?_, ?_, h.issued_nodup, h.issued_lt⟩
  · intro e he
    rcases (Table.mem_set_iff hk).mp he with rfl | ⟨hm, _⟩
    · exact hc.valid
    · exact h.valid e hm
  · simpa [Table.set] using h.clients
  · simpa using h.distinct
  · simpa using h.keys_lt

theorem erased (h : Accounted config m sessions nextToken issued)
    (hg : sessions.get token = some s) :
    Accounted config (m.subtract s.output.bytes) (sessions.erase token) nextToken issued := by
  have hbudget : kQueueBudget = 67108864 := kQueueBudget_eq
  have hle := Table.le_total (f := fun s : Session => s.output.bytes) hg
  have her := Table.total_erase (f := fun s : Session => s.output.bytes) h.distinct hg
  have hq := h.queued
  have hb := h.budget
  obtain ⟨hsub, hsubu⟩ := subtract_exact (m := m) (n := s.output.bytes) (by omega)
  have hkeys : (sessions.erase token).keys.Sublist sessions.keys := Table.keys_erase_sublist
  refine ⟨by omega, by omega, hsubu.trans h.exact, ?_, ?_, ?_, ?_, h.issued_nodup, h.issued_lt⟩
  · exact fun e he => h.valid e (Table.mem_erase_iff.mp he).1
  · exact Nat.le_trans (List.length_filter_le _ _) h.clients
  · exact h.distinct.sublist hkeys
  · exact fun t ht => h.keys_lt t (hkeys.subset ht)

/-- A session charged before it is inserted joins under a token just issued. -/
theorem inserted (h : Accounted config m sessions nextToken issued)
    (hroom : sessions.length < config.maxClients) {m' : Meter}
    (hc : Charged m.queuedBytes m' s) :
    Accounted config m' (sessions ++ [(nextToken, s)]) (nextToken + 1) (issued ++ [nextToken]) := by
  have hkeys : Table.keys (sessions ++ [(nextToken, s)]) = sessions.keys ++ [nextToken] := by
    simp [Table.keys]
  refine ⟨?_, hc.budget, hc.exact, ?_, ?_, ?_, ?_, ?_, ?_⟩
  · rw [hc.queued, h.queued, Table.total_append]
    simp
  · intro e he
    rcases List.mem_append.mp he with hm | hm
    · exact h.valid e hm
    · obtain rfl := List.mem_singleton.mp hm
      exact hc.valid
  · simp only [List.length_append, List.length_singleton]
    omega
  · rw [hkeys]
    refine List.nodup_append.mpr ⟨h.distinct, by simp, ?_⟩
    intro a ha b hb
    have := h.keys_lt a ha
    simp only [List.mem_singleton] at hb
    omega
  · intro t ht
    rw [hkeys] at ht
    rcases List.mem_append.mp ht with hm | hm
    · have := h.keys_lt t hm
      omega
    · simp only [List.mem_singleton] at hm
      omega
  · refine List.nodup_append.mpr ⟨h.issued_nodup, by simp, ?_⟩
    intro a ha b hb
    have := h.issued_lt a ha
    simp only [List.mem_singleton] at hb
    omega
  · intro t ht
    rcases List.mem_append.mp ht with hm | hm
    · have := h.issued_lt t hm
      omega
    · simp only [List.mem_singleton] at hm
      omega

/-- A refused session leaves only its token behind. -/
theorem refused (h : Accounted config m sessions nextToken issued) {m' : Meter}
    (hc : Charged m.queuedBytes m' s) (hempty : s.output = {}) :
    Accounted config m' sessions (nextToken + 1) (issued ++ [nextToken]) := by
  have hq := hc.queued
  rw [hempty] at hq
  have hz : OutputQueue.bytes {} = 0 := rfl
  refine ⟨by rw [hq, h.queued, hz]; omega, hc.budget, hc.exact, h.valid, h.clients, h.distinct,
    ?_, ?_, ?_⟩
  · intro t ht
    have := h.keys_lt t ht
    omega
  · refine List.nodup_append.mpr ⟨h.issued_nodup, by simp, ?_⟩
    intro a ha b hb
    have := h.issued_lt a ha
    simp only [List.mem_singleton] at hb
    omega
  · intro t ht
    rcases List.mem_append.mp ht with hm | hm
    · have := h.issued_lt t hm
      omega
    · simp only [List.mem_singleton] at hm
      omega

theorem reordered (h : Accounted config m sessions nextToken issued) {sessions' : Table Nat Session}
    (hp : sessions'.Perm sessions) : Accounted config m sessions' nextToken issued := by
  have hk : sessions'.keys.Perm sessions.keys := hp.map _
  exact ⟨h.queued.trans (Table.total_perm hp).symm, h.budget, h.exact,
    fun e he => h.valid e (hp.subset he), hp.length_eq ▸ h.clients, hk.nodup_iff.mpr h.distinct,
    fun t ht => h.keys_lt t (hk.subset ht), h.issued_nodup, h.issued_lt⟩

end Accounted

namespace Reactor

variable {config : ReactorConfig} {r : Reactor}

theorem accounts_init (a b c d e : Nat) : (init a b c d e).Accounts config :=
  ⟨rfl, Nat.zero_le _, rfl, by simp [init, register], by simp [init, register],
    by simp [init, register, Table.keys], by simp [init, register, Table.keys],
    by simp [init, register], by simp [init, register]⟩

theorem accounts_close (h : r.Accounts config) (token : Nat) : (r.close token).Accounts config := by
  unfold close
  cases hg : r.sessions.get token with
  | none => exact h
  | some s => exact Accounted.erased h hg

theorem accounts_accept (h : r.Accounts config) (latest : Option Published) (streaming : Bool)
    (result : AcceptResult) : (r.accept config latest streaming result).Accounts config := by
  cases result with
  | interrupted => exact h
  | wouldBlock => exact h
  | exhausted => exact h
  | failed => exact h
  | descriptor fd =>
      simp only [accept]
      split
      · exact h
      · rename_i hroom
        have hroom : r.sessions.length < config.maxClients := Nat.lt_of_not_le hroom
        let s : Session :=
          { fd, streaming, acceptedAt := r.clock, lastProgress := r.clock,
            log := [(r.clock, .accepted)] }
        have hnew : Charged r.queuedBytes r.toMeter s :=
          ⟨rfl, h.budget, h.exact, OutputQueue.valid_empty⟩
        split
        · rename_i published
          have hc := charged_enqueue hnew published.nonempty
          split
          · rename_i s' m' he
            rw [he] at hc
            exact Accounted.inserted h hroom hc
          · rename_i s' m' he
            have hempty := enqueue_refused (m := r.toMeter) (s := s) (b := published.frame)
              (by rw [he])
            rw [he] at hc hempty
            exact Accounted.refused h hc hempty
        · exact Accounted.inserted h hroom hnew

theorem accounts_broadcastTo (h : r.Accounts config) (published : Published) (token : Nat) :
    (broadcastTo published r token).Accounts config := by
  unfold broadcastTo
  cases hg : r.sessions.get token with
  | none => exact h
  | some s =>
      simp only
      split
      · exact h
      · have hc := charged_enqueue (Accounted.out h hg) published.nonempty
        have hb := Accounted.back h hg hc
        split
        · exact hb
        · exact accounts_close (r := { r with rejected := r.rejected + 1, toMeter := _, sessions := _ }) hb token

theorem accounts_foldl {f : Reactor → Nat → Reactor}
    (hf : ∀ {r} token, Accounts config r → (f r token).Accounts config)
    (tokens : List Nat) (h : r.Accounts config) : (tokens.foldl f r).Accounts config := by
  induction tokens generalizing r with
  | nil => exact h
  | cons token tokens ih => exact ih (hf token h)

theorem accounts_broadcast (h : r.Accounts config) (latest : Option Published) :
    (r.broadcast latest).Accounts config := by
  unfold broadcast
  split
  · exact h
  · split
    · exact h
    · exact accounts_foldl (fun token hr => accounts_broadcastTo hr _ token) _ h

theorem accounts_sweepOne (h : r.Accounts config) (token : Nat) :
    (sweepOne config r token).Accounts config := by
  unfold sweepOne
  split
  · exact h
  · split
    · exact accounts_close (r := { r with timeouts := r.timeouts + 1 }) h token
    · exact h

theorem accounts_sweep (h : r.Accounts config) : (r.sweep config).Accounts config := by
  have hf := accounts_foldl (fun token hr => accounts_sweepOne hr token) r.sessions.keys h
  unfold sweep
  simp only
  split <;> exact hf

theorem accounts_handle (h : r.Accounts config) (limit : Buffer) (route : Bytes → Buffer)
    (token : Nat) (ready : Ready) (recvs : List RecvResult) (sends : List SendResult) :
    (r.handle limit route token ready recvs sends).Accounts config := by
  unfold handle
  cases hg : r.sessions.get token with
  | none => exact h
  | some s =>
      have hout := Accounted.out h hg
      have hread := charged_read limit route 8 recvs hout
      generalize hbytes : r.queuedBytes - s.output.bytes = rest at hout hread
      simp only
      -- The session is charged after the optional read, and then after the optional write.
      generalize hrd : (if (!ready.error && !s.streaming && !s.responding &&
        (ready.input || ready.readHup || ready.hup)) = true then
          readLoop limit route 8 recvs s r.toMeter else (!ready.error, s, r.toMeter)) = read
      have hr : Charged rest read.2.2 read.2.1 := by
        rw [← hrd]
        split
        · exact hread
        · exact hout
      generalize hwr : (if (read.1 && ready.output) = true then
        writeLoop token kWriteBudget sends read.2.1 read.2.2
          else (read.1, read.2.1, read.2.2)) = written
      have hw : Charged rest written.2.2 written.2.1 := by
        rw [← hwr]
        split
        · exact charged_write token _ sends hr
        · exact hr
      rw [← hbytes] at hw
      have hb := Accounted.back h hg hw
      split
      · exact hb
      · exact accounts_close (r := { r with toMeter := _, sessions := _ }) hb token

theorem accounts_shutdown (h : r.Accounts config) : r.shutdown.Accounts config :=
  ⟨rfl, Nat.zero_le _, h.exact, by simp [shutdown], by simp [shutdown],
    by simp [shutdown, Table.keys], by simp [shutdown, Table.keys], h.issued_nodup, h.issued_lt⟩

end Reactor
end WebHtop.Server
