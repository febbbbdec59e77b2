import WebHtop.Server.System

/-!
# The generations started on one connection

A generation is started on a session when its first byte is sent. Broadcast decides
by `last_sequence_` alone, and Accept gives a new session the newest generation
without touching it, so the notification for that generation queues it again. The
order of the generations on a session holds in every run in which no broadcast
meets a session that has started its generation already, and fails otherwise.
-/

namespace WebHtop.Server

open WebHtop.Lib

/-- The generations whose first byte was sent on a session, oldest first. -/
def started (wire : List Sent) (token : Nat) : List Nat :=
  (wire.filter fun c => c.token = token ∧ c.offset = 0).filterMap Sent.sequence

@[simp] theorem started_append (wire wire' : List Sent) (token : Nat) :
    started (wire ++ wire') token = started wire token ++ started wire' token := by
  simp [started]

theorem started_eq_nil {wire : List Sent} {token : Nat} (h : ∀ c ∈ wire, c.token ≠ token) :
    started wire token = [] := by
  have hnone : (wire.filter fun c => c.token = token ∧ c.offset = 0) = [] := by
    simp only [List.filter_eq_nil_iff, decide_eq_true_eq, not_and]
    exact fun c hc he => absurd he (h c hc)
  rw [started, hnone]
  rfl

namespace OutputQueue

/-- The generation queued on a session that is not started yet. -/
def unstarted (q : OutputQueue) : List Nat :=
  ((if q.offset = 0 then q.current else q.pending).bind Buffer.sequence).toList

theorem unstarted_push (q : OutputQueue) (b : Buffer) :
    (q.push b).2.unstarted = b.sequence.toList := by
  unfold push
  cases hc : q.current with
  | none => simp [unstarted]
  | some c =>
      by_cases ho : q.offset = 0
      · simp [unstarted, ho]
      · simp [unstarted, ho]

/-- Sending neither adds nor loses a generation: what a consumption at offset 0
starts was the unstarted one. -/
theorem started_consume {q q' : OutputQueue} (hq : q.Valid) {size : Nat} (hpos : 0 < size)
    (h : q.consume size = some q') :
    (if q.offset = 0 then (q.current.bind Buffer.sequence).toList else []) ++ q'.unstarted =
      q.unstarted := by
  cases hc : q.current with
  | none => simp [consume, hc] at h
  | some b =>
      have hs : size ≤ q.front.length := by
        by_contra hn
        simp [consume, hc, Nat.lt_of_not_le hn] at h
      have hpending : q.offset = 0 → q.pending = none := by
        intro ho
        by_contra hp
        have := hq.pending_started hp
        omega
      rcases consume_cases hq hc hs with ⟨_, he⟩ | ⟨_, he⟩
      · obtain rfl := Option.some.inj (he.symm.trans h)
        by_cases ho : q.offset = 0
        · have hne : size ≠ 0 := by omega
          simp [unstarted, ho, hc, hne, hpending ho]
        · simp [unstarted, ho]
      · obtain rfl := Option.some.inj (he.symm.trans h)
        by_cases ho : q.offset = 0
        · simp [unstarted, ho, hc, hpending ho]
        · simp [unstarted, ho]

end OutputQueue

/-- The generations begun on a session and the one queued behind them are strictly
increasing and none is newer than `bound`. -/
structure InOrder (bound : Nat) (begun : List Nat) (q : OutputQueue) : Prop where
  increasing : (begun ++ q.unstarted).Pairwise (· < ·)
  bounded : ∀ n ∈ begun ++ q.unstarted, n ≤ bound

namespace InOrder

variable {bound : Nat} {begun : List Nat} {q : OutputQueue}

theorem dropped (h : InOrder bound begun q) : InOrder bound begun {} := by
  have hu : OutputQueue.unstarted {} = [] := rfl
  refine ⟨?_, ?_⟩
  · rw [hu, List.append_nil]
    exact (List.pairwise_append.mp h.increasing).1
  · rw [hu, List.append_nil]
    exact fun n hn => h.bounded n (List.mem_append_left _ hn)

theorem pushed (h : InOrder bound begun q) {b : Buffer}
    (hb : ∀ n, b.sequence = some n → n ≤ bound ∧ n ∉ begun ∧ ∀ m ∈ begun, m ≤ n) :
    InOrder bound begun (q.push b).2 := by
  have hu := OutputQueue.unstarted_push q b
  have hd := h.dropped
  have he : OutputQueue.unstarted {} = [] := rfl
  cases hs : b.sequence with
  | none =>
      rw [hs] at hu
      exact ⟨by rw [hu]; simpa [he] using hd.increasing, by rw [hu]; simpa [he] using hd.bounded⟩
  | some n =>
      obtain ⟨hle, hnew, hmax⟩ := hb n hs
      rw [hs] at hu
      refine ⟨?_, ?_⟩
      · rw [hu]
        refine List.pairwise_append.mpr ⟨(List.pairwise_append.mp h.increasing).1, by simp, ?_⟩
        intro m hm n' hn'
        obtain rfl : n' = n := by simpa using hn'
        have hne : m ≠ n' := fun he => hnew (he ▸ hm)
        have := hmax m hm
        omega
      · rw [hu]
        intro m hm
        rcases List.mem_append.mp hm with hm | hm
        · exact h.bounded m (List.mem_append_left _ hm)
        · obtain rfl : m = n := by simpa using hm
          exact hle

theorem mono (h : InOrder bound begun q) {bound' : Nat} (hle : bound ≤ bound') :
    InOrder bound' begun q :=
  ⟨h.increasing, fun n hn => Nat.le_trans (h.bounded n hn) hle⟩

end InOrder

namespace Meter

variable {bound token : Nat} {m : Meter} {s : Session}

theorem inOrder_enqueue {begun : List Nat} (h : InOrder bound begun s.output) {b : Buffer}
    (hb : ∀ n, b.sequence = some n → n ≤ bound ∧ n ∉ begun ∧ ∀ m ∈ begun, m ≤ n) :
    InOrder bound begun (m.enqueue s b).2.1.output := by
  rcases enqueue_cases m s b with ⟨_, he⟩ | ⟨_, he⟩
  · rw [he]
    exact h.dropped
  · rw [he]
    exact h.pushed hb

theorem read_wire (limit : Buffer) (route : Bytes → Buffer) (tries : Nat)
    (recvs : List RecvResult) (s : Session) (m : Meter) :
    (readLoop limit route tries recvs s m).2.2.wire = m.wire := by
  induction recvs generalizing tries s with
  | nil => cases tries <;> rfl
  | cons result results ih =>
      cases tries with
      | zero => rfl
      | succ tries =>
          match result with
          | .interrupted => exact ih tries s
          | .wouldBlock => rfl
          | .failed => rfl
          | .data [] => rfl
          | .data (c :: cs) =>
              simp only [readLoop]
              split
              · exact ih tries _
              · split
                · exact ih tries _
                · exact enqueue_wire _ _ _

/-- A response carries no generation. -/
theorem inOrder_read (limit : Buffer) (route : Bytes → Buffer) (tries : Nat)
    (recvs : List RecvResult) {begun : List Nat} (h : InOrder bound begun s.output) :
    InOrder bound begun (readLoop limit route tries recvs s m).2.1.output := by
  induction recvs generalizing tries s with
  | nil => cases tries <;> exact h
  | cons result results ih =>
      cases tries with
      | zero => exact h
      | succ tries =>
          match result with
          | .interrupted => exact ih tries h
          | .wouldBlock => exact h
          | .failed => exact h
          | .data [] => exact h
          | .data (c :: cs) =>
              simp only [readLoop]
              split
              · exact ih (s := { s with request := _, log := _ }) tries h
              · rename_i response _
                split
                · exact ih (s := { s with request := _, log := _ }) tries h
                · exact inOrder_enqueue (s := { s with responding := true, request := [], log := _ }) h
                    (fun n hn => by simp at hn)

/-- Write sends chunks of its own session only, and starts generations in order. -/
theorem inOrder_write (budget : Nat) (sends : List SendResult)
    (h : InOrder bound (started m.wire token) s.output) (hv : s.output.Valid) :
    InOrder bound (started (writeLoop token budget sends s m).2.2.wire token)
        (writeLoop token budget sends s m).2.1.output ∧
      ∃ chunks, (writeLoop token budget sends s m).2.2.wire = m.wire ++ chunks ∧
        ∀ c ∈ chunks, c.token = token := by
  induction sends generalizing budget s m with
  | nil => exact ⟨h, [], by simp [writeLoop], by simp⟩
  | cons result results ih =>
      have hstop : ∀ alive : Bool, InOrder bound (started (alive, s, m).2.2.wire token)
          (alive, s, m).2.1.output ∧ ∃ chunks, (alive, s, m).2.2.wire = m.wire ++ chunks ∧
            ∀ c ∈ chunks, c.token = token := fun _ => ⟨h, [], by simp, by simp⟩
      simp only [writeLoop]
      split
      · exact hstop _
      · cases result with
        | interrupted => exact ih budget h hv
        | wouldBlock => exact hstop _
        | failed => exact hstop _
        | accepted size elapsed =>
            simp only
            generalize min size (min s.output.front.length budget) = written
            split
            · exact hstop _
            · rename_i hpos
              split
              · exact hstop _
              · rename_i output ho
                have hcons := OutputQueue.started_consume hv (Nat.pos_of_ne_zero hpos) ho
                obtain ⟨chunk, hchunk⟩ : ∃ chunk : Sent, Sent.mk token
                    (s.output.current.bind Buffer.sequence) s.output.offset
                    (s.output.front.take written) = chunk := ⟨_, rfl⟩
                rw [hchunk]
                have hnew : started [chunk] token =
                    if s.output.offset = 0 then (s.output.current.bind Buffer.sequence).toList
                    else [] := by
                  rw [← hchunk]
                  by_cases hz : s.output.offset = 0
                  · cases s.output.current.bind Buffer.sequence <;> simp [started, hz]
                  · simp [started, hz]
                have hinv : InOrder bound (started (m.wire ++ [chunk]) token) output := by
                  refine ⟨?_, ?_⟩
                  · rw [started_append, List.append_assoc, hnew, hcons]
                    exact h.increasing
                  · rw [started_append, List.append_assoc, hnew, hcons]
                    exact h.bounded
                obtain ⟨hin, chunks, hw, hc⟩ := ih (budget - written)
                  (s := { s with output := output, lastProgress := m.clock + elapsed, log := _ })
                  (m := { m.subtract written with
                    bytesSent := m.bytesSent + written
                    clock := m.clock + elapsed
                    wire := m.wire ++ [chunk] }) hinv (OutputQueue.valid_consume hv ho)
                refine ⟨hin, chunk :: chunks, ?_, ?_⟩
                · exact hw.trans (by simp)
                · intro c hcm
                  rcases List.mem_cons.mp hcm with rfl | hcm
                  · rw [← hchunk]
                  · exact hc c hcm

end Meter

/-- The order on every session, live or closed. -/
structure Ordered (bound : Nat) (wire : List Sent) (sessions : Table Nat Session)
    (nextToken : Nat) : Prop where
  live : ∀ e ∈ sessions, InOrder bound (started wire e.1) e.2.output
  past : ∀ token, (started wire token).Pairwise (· < ·)
  tokens : ∀ c ∈ wire, c.token < nextToken

namespace Ordered

variable {bound : Nat} {wire : List Sent} {sessions sessions' : Table Nat Session}
  {nextToken token : Nat} {s s' : Session}

theorem shrunk (h : Ordered bound wire sessions nextToken)
    (hs : ∀ e ∈ sessions', e ∈ sessions) : Ordered bound wire sessions' nextToken :=
  ⟨fun e he => h.live e (hs e he), h.past, h.tokens⟩

theorem mono (h : Ordered bound wire sessions nextToken) {bound' : Nat} (hle : bound ≤ bound') :
    Ordered bound' wire sessions nextToken :=
  ⟨fun e he => (h.live e he).mono hle, h.past, h.tokens⟩

/-- The frame rule of a session step: it may send on its own token only. -/
theorem back (h : Ordered bound wire sessions nextToken)
    (hg : sessions.get token = some s) {chunks : List Sent}
    (hc : ∀ c ∈ chunks, c.token = token) (hlt : token < nextToken)
    (hin : InOrder bound (started (wire ++ chunks) token) s'.output) :
    Ordered bound (wire ++ chunks) (sessions.set token s') nextToken := by
  have hother : ∀ t, t ≠ token → started (wire ++ chunks) t = started wire t := by
    intro t ht
    have hnil : started chunks t = [] := started_eq_nil fun c hm he => ht (he ▸ hc c hm)
    rw [started_append, hnil, List.append_nil]
  refine ⟨?_, ?_, ?_⟩
  · intro e he
    rcases (Table.mem_set_iff (Table.mem_keys_of_get hg)).mp he with rfl | ⟨hm, hne⟩
    · exact hin
    · rw [hother e.1 hne]
      exact h.live e hm
  · intro t
    by_cases ht : t = token
    · rw [ht]
      exact (List.pairwise_append.mp hin.increasing).1
    · rw [hother t ht]
      exact h.past t
  · intro c hm
    rcases List.mem_append.mp hm with hm | hm
    · exact h.tokens c hm
    · rw [hc c hm]
      exact hlt

theorem issued (h : Ordered bound wire sessions nextToken) :
    Ordered bound wire sessions (nextToken + 1) :=
  ⟨h.live, h.past, fun c hc => Nat.lt_succ_of_lt (h.tokens c hc)⟩

/-- Nothing was sent under a token that is only now issued. -/
theorem unused (h : Ordered bound wire sessions nextToken) : started wire nextToken = [] :=
  started_eq_nil fun c hc => Nat.ne_of_lt (h.tokens c hc)

theorem inserted (h : Ordered bound wire sessions nextToken) (hin : InOrder bound [] s.output) :
    Ordered bound wire (sessions ++ [(nextToken, s)]) (nextToken + 1) := by
  refine ⟨?_, h.past, h.issued.tokens⟩
  intro e he
  rcases List.mem_append.mp he with hm | hm
  · exact h.live e hm
  · obtain rfl := List.mem_singleton.mp hm
    rw [h.unused]
    exact hin

end Ordered

namespace Reactor

variable {config : ReactorConfig} {r : Reactor} {bound : Nat}

/-- The order of a whole reactor. -/
def InOrder (bound : Nat) (r : Reactor) : Prop :=
  Ordered bound r.wire r.sessions r.nextToken

theorem inOrder_close (h : r.InOrder bound) (token : Nat) : (r.close token).InOrder bound := by
  unfold close
  cases hg : r.sessions.get token with
  | none => exact h
  | some s => exact Ordered.shrunk h fun e he => (Table.mem_erase_iff.mp he).1

theorem inOrder_accept (h : r.InOrder bound) {latest : Option Published}
    (hl : ∀ p, latest = some p → p.sequence ≤ bound) (streaming : Bool) (result : AcceptResult) :
    (r.accept config latest streaming result).InOrder bound := by
  cases result with
  | interrupted => exact h
  | wouldBlock => exact h
  | exhausted => exact h
  | failed => exact h
  | descriptor fd =>
      simp only [accept]
      split
      · exact h
      · let s : Session :=
          { fd, streaming, acceptedAt := r.clock, lastProgress := r.clock,
            log := [(r.clock, .accepted)] }
        have hnew : Server.InOrder bound [] s.output := ⟨by simp [s, OutputQueue.unstarted],
          by simp [s, OutputQueue.unstarted]⟩
        split
        · rename_i published
          have hin := Meter.inOrder_enqueue (m := r.toMeter) (s := s) hnew (b := published.frame)
            (by
              intro n hn
              obtain rfl := Option.some.inj (published.tagged.symm.trans hn)
              exact ⟨hl published rfl, by simp, by simp⟩)
          have hw := Meter.enqueue_wire r.toMeter s published.frame
          split
          · rename_i s' m' he
            rw [he] at hin hw
            have h' : Ordered bound m'.wire r.sessions r.nextToken := hw ▸ h
            exact h'.inserted hin
          · rename_i s' m' he
            rw [he] at hw
            have h' : Ordered bound m'.wire r.sessions r.nextToken := hw ▸ h
            exact h'.issued
        · exact Ordered.inserted h hnew

/-- No live subscriber has started this generation. -/
def NotStarted (r : Reactor) (sequence : Nat) : Prop :=
  ∀ e ∈ r.sessions, e.2.streaming = true → sequence ∉ started r.wire e.1

/-- What Broadcast keeps while it walks the table. -/
structure Broadcasting (config : ReactorConfig) (published : Published) (r : Reactor) : Prop where
  accounts : r.Accounts config
  order : r.InOrder published.sequence
  fresh : r.NotStarted published.sequence

theorem notStarted_close {sequence : Nat} (h : r.NotStarted sequence) (token : Nat) :
    (r.close token).NotStarted sequence := by
  unfold close
  cases hg : r.sessions.get token with
  | none => exact h
  | some s => exact fun e he => h e (Table.mem_erase_iff.mp he).1

theorem broadcasting_broadcastTo {published : Published} (h : Broadcasting config published r)
    (token : Nat) : Broadcasting config published (broadcastTo published r token) := by
  cases hg : r.sessions.get token with
  | none =>
      have hsame : broadcastTo published r token = r := by simp only [broadcastTo, hg]
      rwa [hsame]
  | some s =>
      cases hstream : s.streaming with
      | false =>
          have hsame : broadcastTo published r token = r := by
            simp [broadcastTo, hg, hstream]
          rwa [hsame]
      | true =>
          have hm := Table.mem_of_get hg
          have hk := Table.mem_keys_of_get hg
          have hlive := h.order.live _ hm
          have hin := Meter.inOrder_enqueue (m := r.toMeter) hlive (b := published.frame) (by
            intro n hn
            obtain rfl := Option.some.inj (published.tagged.symm.trans hn)
            exact ⟨Nat.le_refl _, h.fresh _ hm hstream,
              fun m hm => hlive.bounded m (List.mem_append_left _ hm)⟩)
          have hw := Meter.enqueue_wire r.toMeter s published.frame
          have hnone : ∀ c ∈ ([] : List Sent), c.token = token := by simp
          have hback := Ordered.back h.order hg hnone (h.accounts.keys_lt token hk)
            (by simpa using hin)
          rw [List.append_nil, ← hw] at hback
          have hfresh : ∀ e ∈ r.sessions.set token (r.toMeter.enqueue s published.frame).2.1,
              e.2.streaming = true → published.sequence ∉ started r.wire e.1 := by
            intro e he hs
            rcases (Table.mem_set_iff hk).mp he with rfl | ⟨hm', _⟩
            · exact h.fresh (token, s) hm hstream
            · exact h.fresh e hm' hs
          rw [← hw] at hfresh
          refine ⟨accounts_broadcastTo h.accounts published token, ?_, ?_⟩
          · simp only [broadcastTo, hg, hstream, Bool.not_true, Bool.false_eq_true, ↓reduceIte]
            split
            · exact hback
            · exact inOrder_close (r := { r with
                toMeter := _, sessions := _, rejected := _ }) hback token
          · simp only [broadcastTo, hg, hstream, Bool.not_true, Bool.false_eq_true, ↓reduceIte]
            split
            · exact hfresh
            · exact notStarted_close (r := { r with
                toMeter := _, sessions := _, rejected := _ }) hfresh token

theorem inOrder_broadcast (ha : r.Accounts config) (h : r.InOrder bound)
    {latest : Option Published}
    (hl : ∀ p, latest = some p → p.sequence = bound ∧
      (p.sequence ≠ r.lastSequence → r.NotStarted p.sequence)) :
    (r.broadcast latest).InOrder bound := by
  cases latest with
  | none => exact h
  | some published =>
      obtain ⟨rfl, hfresh⟩ := hl published rfl
      simp only [broadcast]
      split
      · exact h
      · rename_i hne
        have hinit : Broadcasting config published { r with lastSequence := published.sequence } :=
          ⟨ha, h, hfresh hne⟩
        exact (List.foldlRecOn _ _ hinit fun r hr token _ => broadcasting_broadcastTo hr token).order

theorem inOrder_sweep (h : r.InOrder bound) : (r.sweep config).InOrder bound := by
  have hone : ∀ r : Reactor, r.InOrder bound → ∀ token, (sweepOne config r token).InOrder bound := by
    intro r hr token
    unfold sweepOne
    split
    · exact hr
    · split
      · exact inOrder_close (r := { r with timeouts := r.timeouts + 1 }) hr token
      · exact hr
  have hf : (r.sessions.keys.foldl (sweepOne config) r).InOrder bound :=
    List.foldlRecOn _ _ h fun r hr token _ => hone r hr token
  unfold sweep
  simp only
  split <;> exact hf

theorem inOrder_handle (ha : r.Accounts config) (h : r.InOrder bound) (limit : Buffer)
    (route : Bytes → Buffer) (token : Nat) (ready : Ready) (recvs : List RecvResult)
    (sends : List SendResult) :
    (r.handle limit route token ready recvs sends).InOrder bound := by
  unfold handle
  cases hg : r.sessions.get token with
  | none => exact h
  | some s =>
      have hm := Table.mem_of_get hg
      have hv := ha.valid _ hm
      have hlive := h.live _ hm
      simp only
      generalize hrd : (if (!ready.error && !s.streaming && !s.responding &&
        (ready.input || ready.readHup || ready.hup)) = true then
          readLoop limit route 8 recvs s r.toMeter else (!ready.error, s, r.toMeter)) = read
      have hread : read.2.2.wire = r.wire ∧ read.2.1.output.Valid ∧
          Server.InOrder bound (started r.wire token) read.2.1.output := by
        rw [← hrd]
        split
        · exact ⟨Meter.read_wire .., (Meter.charged_read limit route 8 recvs (ha.out hg)).valid,
            Meter.inOrder_read limit route 8 recvs hlive⟩
        · exact ⟨rfl, hv, hlive⟩
      obtain ⟨hrw, hrv, hro⟩ := hread
      rw [← hrw] at hro
      generalize hwr : (if (read.1 && ready.output) = true then
        writeLoop token kWriteBudget sends read.2.1 read.2.2
          else (read.1, read.2.1, read.2.2)) = written
      have hwrite : Server.InOrder bound (started written.2.2.wire token) written.2.1.output ∧
          ∃ chunks, written.2.2.wire = r.wire ++ chunks ∧ ∀ c ∈ chunks, c.token = token := by
        rw [← hwr, ← hrw]
        split
        · exact Meter.inOrder_write _ sends hro hrv
        · exact ⟨hro, [], by simp, by simp⟩
      obtain ⟨hwo, chunks, hww, hc⟩ := hwrite
      rw [hww] at hwo
      have hback := Ordered.back h hg hc (ha.keys_lt token (Table.mem_keys_of_get hg)) hwo
      rw [← hww] at hback
      split
      · exact hback
      · exact inOrder_close (r := { r with toMeter := _, sessions := _ }) hback token

end Reactor

/-- The events that run Broadcast. -/
def Event.broadcasts : Event → Bool
  | .notification => true
  | .timerBroadcast => true
  | _ => false

namespace System

variable {config : ReactorConfig} {s s' : System}

/-- A broadcast of a new generation finds no live subscriber that has started it:
what a subscriber accepted after the publication may already have done. -/
def Fresh (s : System) (e : Event) : Prop :=
  e.broadcasts = true → ∀ p ∈ s.latest, p.sequence ≠ s.reactor.lastSequence →
    s.reactor.NotStarted p.sequence

instance (s : System) (e : Event) : Decidable (s.Fresh e) :=
  inferInstanceAs (Decidable (_ → ∀ p ∈ s.latest, p.sequence ≠ s.reactor.lastSequence →
    ∀ e ∈ s.reactor.sessions, e.2.streaming = true →
      p.sequence ∉ started s.reactor.wire e.1))

def latestSequence (s : System) : Nat := (s.latest.map Published.sequence).getD 0

structure Kept (config : ReactorConfig) (s : System) : Prop where
  accounts : s.reactor.Accounts config
  order : s.reactor.InOrder s.latestSequence
  numbered : s.latestSequence ≤ s.sequence

theorem inOrder_acts {latest : Option Published} {r r' : Reactor} {e : Event} {bound : Nat}
    (ha : Acts config latest r e r') (hacc : r.Accounts config) (h : r.InOrder bound)
    (hl : ∀ p, latest = some p → p.sequence = bound)
    (hf : e.broadcasts = true → ∀ p, latest = some p →
      p.sequence ≠ r.lastSequence → r.NotStarted p.sequence) : r'.InOrder bound := by
  cases ha with
  | paused => exact h
  | accept streaming result =>
      exact Reactor.inOrder_accept h (fun p hp => Nat.le_of_eq (hl p hp)) streaming result
  | handle token ready recvs sends limit route =>
      exact Reactor.inOrder_handle hacc h limit route token ready recvs sends
  | notification =>
      exact Reactor.inOrder_broadcast hacc h fun p hp => ⟨hl p hp, hf rfl p hp⟩
  | timerBroadcast =>
      exact Reactor.inOrder_broadcast hacc h fun p hp => ⟨hl p hp, hf rfl p hp⟩
  | sweep => exact Reactor.inOrder_sweep h
  | rehash i => exact Ordered.shrunk h fun e he => (swapAt_perm i r.sessions).subset he
  | elapse => exact ⟨h.live, h.past, h.tokens⟩
  | shutdown => exact Ordered.shrunk h fun e he => absurd he List.not_mem_nil

theorem kept_step {e : Event} (hs : Where (Step config) Fresh s e s') (h : s.Kept config) :
    s'.Kept config := by
  obtain ⟨hf, hs⟩ := hs
  have hacc := accounts_step hs h.accounts
  have hnum := h.numbered
  rcases step_cases hs with ⟨hr, hseq, p, hp, hl⟩ | ⟨hr, hseq, hl⟩ | ⟨ha, hseq, hl⟩
  · have hnew : s'.latestSequence = s.sequence + 1 := by simp [latestSequence, hl, hp]
    refine ⟨hacc, ?_, by omega⟩
    rw [hr, hnew]
    exact Ordered.mono h.order (by omega)
  · have hsame : s'.latestSequence = s.latestSequence := by simp [latestSequence, hl]
    exact ⟨hacc, by rw [hr, hsame]; exact h.order, by omega⟩
  · have hsame : s'.latestSequence = s.latestSequence := by simp [latestSequence, hl]
    refine ⟨hacc, ?_, by omega⟩
    rw [hsame]
    exact inOrder_acts ha h.accounts h.order (fun p hp => by simp [latestSequence, hp]) hf

variable {httpListener streamListener signalFd notificationFd timer : Nat} {es : List Event}

theorem kept_init : (init httpListener streamListener signalFd notificationFd timer).Kept config :=
  ⟨Reactor.accounts_init _ _ _ _ _,
    ⟨by simp [init, Reactor.init, Reactor.register], by simp [init, Reactor.init, Reactor.register, started],
      by simp [init, Reactor.init, Reactor.register]⟩, Nat.le_refl _⟩

/-- In every run whose broadcasts are fresh, the generations started on a session,
live or closed, strictly increase. -/
theorem started_increasing
    (hr : Run (Where (Step config) Fresh)
      (init httpListener streamListener signalFd notificationFd timer) es s) (token : Nat) :
    (started s.reactor.wire token).Pairwise (· < ·) :=
  (hr.invariant (I := Kept config) kept_init fun h hs => kept_step hs h).order.past token

theorem twoBytes_lt : ([1, 2] : Bytes).length < 2 ^ 63 := by decide

def twoBytes : Buffer := { bytes := [1, 2], size_lt := twoBytes_lt }

/-- The first subscriber takes `size` bytes. -/
def sendEvent (size : Nat) : Event :=
  .session 16 { output := true } [] [.accepted size 0] twoBytes fun _ => twoBytes

/-- The notification finds generation 1 unsent and replaces it by itself. -/
def startedOnce : List Event :=
  [.publish twoBytes, .accept true (.descriptor 9), .notify, .notification,
    sendEvent 1, sendEvent 1]

theorem started_increasing_startedOnce : ∃ s,
    follow (step {}) (init 3 4 5 6 7) startedOnce = some s ∧
    started s.reactor.wire 16 = [1] ∧ (started s.reactor.wire 16).Pairwise (· < ·) := by
  have hf : follow (fun s e => if Fresh s e then step {} s e else none) (init 3 4 5 6 7)
      startedOnce =
      some ((follow (step {}) (init 3 4 5 6 7) startedOnce).getD (init 3 4 5 6 7)) := rfl
  exact ⟨_, rfl, rfl, started_increasing (run_where_of_follow hf) 16⟩

/-- Generation 1 is published, a subscriber takes its first byte, and only then does
the notification arrive; the subscriber reads on. -/
def startedTwice : List Event :=
  [.publish twoBytes, .accept true (.descriptor 9), sendEvent 1, .notify,
    .notification, sendEvent 1, sendEvent 1]

theorem started_not_increasing : ¬ ∀ (es : List Event) (s : System) (token : Nat),
    Run (Step {}) (init 3 4 5 6 7) es s → (started s.reactor.wire token).Pairwise (· < ·) := by
  intro h
  have hf : follow (step {}) (init 3 4 5 6 7) startedTwice =
      some ((follow (step {}) (init 3 4 5 6 7) startedTwice).getD (init 3 4 5 6 7)) := rfl
  have hp := h _ _ 16 (run_of_follow hf)
  have hs : started ((follow (step {}) (init 3 4 5 6 7) startedTwice).getD
      (init 3 4 5 6 7)).reactor.wire 16 = [1, 1] := rfl
  rw [hs] at hp
  exact absurd hp (by decide)

end System
end WebHtop.Server
