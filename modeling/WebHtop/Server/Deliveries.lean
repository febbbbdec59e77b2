import WebHtop.Server.Lineage

/-!
# What is sent on a session

On every session, also one that was closed or refused, the bytes sent are whole buffers in the order
they were enqueued and the beginning of one more. The generations enqueued on a subscriber increase
strictly behind the first of them: only the generation that was current when the subscriber was
accepted can be enqueued a second time.
-/

namespace WebHtop.Server

open WebHtop.Lib

/-- Whole buffers, and at most a proper beginning of the next one. -/
def Delivers (log : Log) : Prop :=
  ∃ (whole : List Buffer) (part : Bytes), sentOf log = whole.flatMap Buffer.bytes ++ part ∧
    ((part = [] ∧ whole.Sublist (enqueuedOf log)) ∨
      ∃ b, part <+: b.bytes ∧ part ≠ b.bytes ∧ (whole ++ [b]).Sublist (enqueuedOf log))

/-- Buffers that are enqueued and not sent change nothing. -/
theorem Delivers.mono {log log' : Log} (h : Delivers log) (hsent : sentOf log' = sentOf log)
    (henqueued : (enqueuedOf log).Sublist (enqueuedOf log')) : Delivers log' := by
  obtain ⟨whole, part, hcontent, hwhole⟩ := h
  refine ⟨whole, part, hsent.trans hcontent, ?_⟩
  rcases hwhole with ⟨hpart, hsub⟩ | ⟨b, hbegins, hne, hsub⟩
  · exact .inl ⟨hpart, hsub.trans henqueued⟩
  · exact .inr ⟨b, hbegins, hne, hsub.trans henqueued⟩

namespace Session

variable {clock : Nat} {s : Session}

theorem Told.delivers (h : s.Told clock) : Delivers s.log := by
  have horder := h.kept.order
  have hcontent := h.kept.content
  rw [historyOf_pushed] at horder
  rw [h.consumed, History.partSent] at hcontent
  refine ⟨(historyOf s.log).finished, _, hcontent, ?_⟩
  cases hc : (historyOf s.log).queue.current with
  | none => exact .inl ⟨rfl, (List.sublist_append_left _ _).trans horder⟩
  | some b =>
      have hlt := h.kept.valid.offset_lt b hc
      refine .inr ⟨b, List.take_prefix _ _, fun he => ?_, ?_⟩
      · have := congrArg List.length he
        simp only [List.length_take] at this
        omega
      · refine List.Sublist.trans ?_ horder
        rw [OutputQueue.items, hc]
        simp

theorem Told.delivers_enqueue {m : Meter} (h : s.Told m.clock) {b : Buffer} (hb : b.bytes ≠ []) :
    Delivers (m.enqueue s b).2.1.log := by
  rcases Meter.enqueue_cases m s b with ⟨_, he⟩ | ⟨_, he⟩
  · rw [he]
    refine h.delivers.mono ?_ ?_
    · simp only [refused, sentOf_append]
      exact (List.append_nil _).trans (List.append_nil _)
    · simp only [refused, enqueuedOf_append]
      exact (List.sublist_append_left _ _).trans (List.sublist_append_left _ _)
  · rw [he]
    exact (told_pushed h hb).delivers

end Session

namespace Meter

open Session

variable {m : Meter} {s : Session}

theorem delivers_read (limit : Buffer) (route : Bytes → Buffer) (tries : Nat)
    (recvs : List RecvResult) (h : s.Told m.clock) :
    Delivers (readLoop limit route tries recvs s m).2.1.log := by
  induction recvs generalizing tries s with
  | nil => cases tries <;> exact h.delivers
  | cons result results ih =>
      cases tries with
      | zero => exact h.delivers
      | succ tries =>
          match result with
          | .interrupted => exact ih tries h
          | .wouldBlock => exact h.delivers
          | .failed => exact h.delivers
          | .data [] => exact h.delivers
          | .data (c :: cs) =>
              have htold := told_received h ((c :: cs).take 2048) (s.request ++ (c :: cs).take 2048)
                s.responding
              simp only [readLoop]
              split
              · exact ih tries htold
              · split
                · exact ih tries htold
                · rename_i response _ hb
                  exact (told_received h _ [] true).delivers_enqueue
                    (b := { response with sequence := none }) hb

/-- Write leaves the session agreeing with its log, whatever becomes of it. -/
theorem open_write (token budget : Nat) (sends : List SendResult) (h : s.Open m.clock) :
    (writeLoop token budget sends s m).2.1.Open (writeLoop token budget sends s m).2.2.clock := by
  induction sends generalizing budget s m with
  | nil => exact h
  | cons result results ih =>
      simp only [writeLoop]
      split
      · exact h
      · cases result with
        | interrupted => exact ih budget h
        | wouldBlock => exact h
        | failed => exact h
        | accepted size elapsed =>
            simp only
            split
            · exact h
            · split
              · exact h
              · rename_i output ho
                have hopen := open_consumed h (Nat.le_add_right m.clock elapsed) (by omega) ho
                exact ih (budget - _) (s := s.consumed (m.clock + elapsed) _ output)
                  (m := { m.subtract _ with
                    bytesSent := _
                    clock := m.clock + elapsed
                    wire := _ }) hopen

theorem delivers_serve (limit : Buffer) (route : Bytes → Buffer) (token : Nat) (ready : Reactor.Ready)
    (recvs : List RecvResult) (sends : List SendResult) (h : s.Live m.clock) :
    Delivers (serve limit route token ready recvs sends s m).2.1.log := by
  simp only [serve]
  generalize hread : (if (!ready.error && !s.streaming && !s.responding &&
    (ready.input || ready.readHup || ready.hup)) = true then
      readLoop limit route 8 recvs s m else (!ready.error, s, m)) = read
  have hr : Delivers read.2.1.log ∧ (read.1 = true → read.2.1.Open read.2.2.clock) := by
    rw [← hread]
    split
    · rename_i hc
      simp only [Bool.and_eq_true, Bool.not_eq_true'] at hc
      obtain ⟨hleaves, hclock⟩ := leaves_read limit route 8 recvs h.toOpen hc.1.1.2 hc.1.2
      exact ⟨delivers_read limit route 8 recvs h.told, fun ha => hclock ▸ (hleaves.live ha).toOpen⟩
    · exact ⟨h.told.delivers, fun _ => h.toOpen⟩
  split
  · rename_i hc
    rw [Bool.and_eq_true] at hc
    exact (open_write token kWriteBudget sends (hr.2 hc.1)).told.delivers
  · exact hr.1

end Meter

/-! ## The numbers of the generations -/

/-- The generations enqueued on a session, oldest first. -/
def numbersOf (log : Log) : List Nat := (enqueuedOf log).filterMap Buffer.sequence

/-- The generations of a session do not go back, and behind the first they go on. -/
structure Numbered (bound : Nat) (numbers : List Nat) : Prop where
  sorted : numbers.Pairwise (· ≤ ·)
  increasing : numbers.tail.Pairwise (· < ·)
  bounded : ∀ n ∈ numbers, n ≤ bound

namespace Numbered

variable {bound bound' last : Nat} {numbers numbers' : List Nat}

theorem nil (bound : Nat) : Numbered bound [] := ⟨.nil, .nil, by simp⟩

theorem mono (h : Numbered bound numbers) (hle : bound ≤ bound') : Numbered bound' numbers :=
  ⟨h.sorted, h.increasing, fun n hn => (h.bounded n hn).trans hle⟩

/-- The newest generation behind others, all of them older unless there is only one. -/
theorem snoc (h : Numbered bound numbers) (hlast : 2 ≤ numbers.length → ∀ n ∈ numbers, n ≤ last)
    (hlt : last < bound) : Numbered bound (numbers ++ [bound]) := by
  refine ⟨List.pairwise_append.mpr ⟨h.sorted, List.pairwise_singleton _ _, ?_⟩, ?_, ?_⟩
  · intro n hn n' hn'
    exact List.mem_singleton.mp hn' ▸ h.bounded n hn
  · match numbers, h, hlast with
    | [], _, _ => exact .nil
    | [a], _, _ => exact List.pairwise_singleton _ _
    | a :: b :: l, h, hlast =>
        refine List.pairwise_append.mpr ⟨h.increasing, List.pairwise_singleton _ _, ?_⟩
        intro n hn n' hn'
        have hle := hlast (by simp) n (List.mem_cons_of_mem _ hn)
        rw [List.mem_singleton.mp hn']
        omega
  · intro n hn
    rcases List.mem_append.mp hn with hn | hn
    · exact h.bounded n hn
    · exact Nat.le_of_eq (List.mem_singleton.mp hn)

theorem sublist (h : Numbered bound numbers) (hs : numbers'.Sublist numbers) :
    Numbered bound numbers' := by
  refine ⟨h.sorted.sublist hs, ?_, fun n hn => h.bounded n (hs.subset hn)⟩
  cases hs with
  | slnil => exact .nil
  | cons a hs => exact (h.increasing.sublist hs).sublist (List.tail_sublist _)
  | cons_cons a hs => exact h.increasing.sublist hs

end Numbered

theorem enqueuedOf_enqueue (m : Meter) (s : Session) (b : Buffer) :
    enqueuedOf (m.enqueue s b).2.1.log = enqueuedOf s.log ++ [b] := by
  rcases Meter.enqueue_cases m s b with ⟨_, he⟩ | ⟨_, he⟩
  · rw [he]
    simp only [Session.refused, enqueuedOf_append]
    exact List.append_nil _
  · rw [he]
    exact enqueuedOf_append _ _

theorem numbersOf_enqueue (m : Meter) (s : Session) (published : Published) :
    numbersOf (m.enqueue s published.frame).2.1.log = numbersOf s.log ++ [published.sequence] := by
  rw [numbersOf, enqueuedOf_enqueue, List.filterMap_append]
  exact congrArg (numbersOf s.log ++ ·) (by simp [published.tagged])

/-- The generations of a live subscriber; a second one is not newer than the last broadcast. -/
structure Sequenced (bound last : Nat) (s : Session) : Prop where
  numbered : Numbered bound (numbersOf s.log)
  current : 2 ≤ (numbersOf s.log).length → ∀ n ∈ numbersOf s.log, n ≤ last

namespace System

variable {config : ReactorConfig} {s s' : System}

theorem lastSequence_load (latest : Option Published) (r : Reactor) :
    (r.broadcast latest).lastSequence = (latest.map Published.sequence).getD r.lastSequence := by
  cases latest with
  | none => rfl
  | some published =>
      simp only [Reactor.broadcast]
      split
      · rename_i hold
        exact hold.symm
      · exact lastSequence_fold published _ _

theorem lastSequence_accept (config : ReactorConfig) (latest : Option Published) (streaming : Bool)
    (result : Reactor.AcceptResult) (r : Reactor) :
    (r.accept config latest streaming result).lastSequence = r.lastSequence := by
  unfold Reactor.accept
  cases result with
  | descriptor fd =>
      simp only
      split
      · rfl
      · split
        · split <;> rfl
        · rfl
  | _ => rfl

/-- Broadcast remembers what it loaded, and nothing else changes `last_sequence_`. -/
theorem lastSequence_acts {latest : Option Published} {r r' : Reactor} {event : Event}
    (ha : Acts config latest r event r') (hc : r.Chronicle) (hf : Fed r) :
    (event.broadcasts = false → r'.lastSequence = r.lastSequence) ∧
      (event.broadcasts = true →
        r'.lastSequence = (latest.map Published.sequence).getD r.lastSequence) := by
  cases ha with
  | paused | rehash | elapse | shutdown => exact ⟨fun _ => rfl, fun hb => by cases hb⟩
  | accept streaming result =>
      exact ⟨fun _ => lastSequence_accept config latest streaming result r, fun hb => by cases hb⟩
  | handle token ready recvs sends limit route =>
      exact ⟨fun _ => (fed_handle hc hf limit route token ready recvs sends).2, fun hb => by cases hb⟩
  | notification | timerBroadcast =>
      exact ⟨fun hb => (by cases hb), fun _ => lastSequence_load latest r⟩
  | sweep => exact ⟨fun _ => (fed_sweep config hf).2, fun hb => by cases hb⟩

/-- The deliveries of all sessions. -/
structure Delivering (config : ReactorConfig) (s : System) : Prop where
  feeding : s.Feeding config
  delivers : ∀ e ∈ s.reactor.sessions ++ s.reactor.closed, Delivers e.2.log
  live : ∀ e ∈ s.reactor.sessions, e.2.streaming = true →
    Sequenced s.latestSequence s.reactor.lastSequence e.2
  past : ∀ e ∈ s.reactor.closed, e.2.streaming = true →
    Numbered s.latestSequence (numbersOf e.2.log)

theorem fresh_told (r : Reactor) (fd : Nat) (streaming : Bool) :
    (r.fresh fd streaming).Told r.clock := Session.told_accepted fd streaming r.clock

theorem descends_delivers {latest : Option Published} {r : Reactor} {event : Event}
    (hc : r.Chronicle) {e : Nat × Session} (h : Descends latest event r e) : Delivers e.2.log := by
  cases h with
  | kept hm => exact (hc.live _ hm).told.delivers
  | fed hm hs hclock =>
      exact Session.Told.delivers_enqueue (hclock ▸ (hc.live _ hm).told) (Published.nonempty _)
  | served hm => exact Meter.delivers_serve _ _ _ _ _ _ (hc.live _ hm)
  | joined => exact (fresh_told r _ _).delivers
  | greeted => exact Session.Told.delivers_enqueue (fresh_told r _ _) (Published.nonempty _)

/-- The generations of a session after a step of the reactor. -/
theorem descends_sequenced {latest : Option Published} {r r' : Reactor} {event : Event} {bound : Nat}
    (ha : Acts config latest r event r') (hc : r.Chronicle) (hf : Fed r)
    (hbound : ∀ p, latest = some p → p.sequence = bound) (hlast : r.lastSequence ≤ bound)
    (hs : ∀ e ∈ r.sessions, e.2.streaming = true → Sequenced bound r.lastSequence e.2)
    {e : Nat × Session} (h : Descends latest event r e) (hstream : e.2.streaming = true) :
    Sequenced bound r'.lastSequence e.2 := by
  obtain ⟨hquiet, hloud⟩ := lastSequence_acts ha hc hf
  have hle : r.lastSequence ≤ r'.lastSequence := by
    cases hb : event.broadcasts with
    | false => exact (hquiet hb).ge
    | true =>
        rw [hloud hb]
        cases latest with
        | none => exact le_refl _
        | some p => exact hlast.trans_eq (hbound p rfl).symm
  cases h with
  | kept hm =>
      have hold := hs _ hm hstream
      exact ⟨hold.numbered, fun h2 n hn => (hold.current h2 n hn).trans hle⟩
  | @fed token x m published hm hx _ hp hnew hb =>
      have hold := hs _ hm hx
      obtain rfl := hbound published hp
      have hlt : r.lastSequence < published.sequence := lt_of_le_of_ne hlast (Ne.symm hnew)
      have hnumbered := hold.numbered.snoc hold.current hlt
      rw [hloud hb, hp]
      refine ⟨?_, fun _ => ?_⟩
      · rw [numbersOf_enqueue]
        exact hnumbered
      · rw [numbersOf_enqueue]
        exact hnumbered.bounded
  | @served token x ready recvs sends limit route hm =>
      have hsame := (Meter.serve_leaves limit route token ready recvs sends (hc.live _ hm)).2.2.same
      have hx : x.streaming = true := hsame.streaming.symm.trans hstream
      have hold := hs _ hm hx
      have hnumbers : numbersOf (Meter.serve limit route token ready recvs sends x r.toMeter).2.1.log =
          numbersOf x.log := congrArg (List.filterMap Buffer.sequence)
        (Meter.serve_frames limit route token ready recvs sends hx)
      refine ⟨?_, fun h2 n hn => ?_⟩
      · rw [hnumbers]
        exact hold.numbered
      · rw [hnumbers] at h2 hn
        exact (hold.current h2 n hn).trans hle
  | joined =>
      refine ⟨.nil bound, fun h2 => absurd h2 ?_⟩
      simp [Reactor.fresh, numbersOf, enqueuedOf, Happening.buffer]
  | @greeted fd published _ hp =>
      obtain rfl := hbound published hp
      have hone : numbersOf (r.toMeter.enqueue (r.fresh fd true) published.frame).2.1.log =
          [published.sequence] := numbersOf_enqueue _ _ _
      refine ⟨?_, fun h2 => ?_⟩
      · rw [hone]
        exact ⟨List.pairwise_singleton _ _, .nil, by simp⟩
      · rw [hone] at h2
        exact absurd h2 (by simp)

theorem delivering_step {e : Event} (hs : Step config s e s') (h : s.Delivering config) :
    s'.Delivering config := by
  have hfeeding := feeding_step hs h.feeding
  have hnumbered := h.feeding.numbered
  -- The worker only moves the bound.
  have hworker : s'.reactor = s.reactor → s.latestSequence ≤ s'.latestSequence →
      s'.Delivering config := by
    intro hr hle
    refine ⟨hfeeding, ?_, ?_, ?_⟩
    · rw [hr]
      exact h.delivers
    · rw [hr]
      exact fun e he hx => ⟨(h.live e he hx).numbered.mono hle, (h.live e he hx).current⟩
    · rw [hr]
      exact fun e he hx => (h.past e he hx).mono hle
  rcases step_cases hs with ⟨hr, -, p, hp, hl⟩ | ⟨hr, -, hl⟩ | ⟨ha, -, hl⟩
  · have hnew : s'.latestSequence = s.sequence + 1 := by simp [latestSequence, hl, hp]
    exact hworker hr (by omega)
  · have hsame : s'.latestSequence = s.latestSequence := by simp [latestSequence, hl]
    exact hworker hr hsame.ge
  · have hsame : s'.latestSequence = s.latestSequence := by simp [latestSequence, hl]
    have hlineage := Lineage.of_acts ha h.feeding.accounts
    have hbound : ∀ p, s.latest = some p → p.sequence = s.latestSequence := fun p hp => by
      simp [latestSequence, hp]
    have hsequenced : ∀ e, Descends s.latest _ s.reactor e → e.2.streaming = true →
        Sequenced s.latestSequence s'.reactor.lastSequence e.2 := fun _ he hx =>
      descends_sequenced ha h.feeding.chronicle h.feeding.fed hbound h.feeding.behind h.live he hx
    refine ⟨hfeeding, ?_, ?_, ?_⟩
    · intro e he
      rcases List.mem_append.mp he with he | he
      · exact descends_delivers h.feeding.chronicle (hlineage.live e he)
      · rcases hlineage.closed e he with he | he
        · exact h.delivers e (List.mem_append_right _ he)
        · exact descends_delivers h.feeding.chronicle he
    · rw [hsame]
      exact fun e he hx => hsequenced e (hlineage.live e he) hx
    · rw [hsame]
      intro e he hx
      rcases hlineage.closed e he with he | he
      · exact h.past e he hx
      · exact (hsequenced e he hx).numbered

variable {httpListener streamListener signalFd notificationFd timer : Nat} {es : List Event}

theorem delivering_run
    (hr : Run (Step config) (init httpListener streamListener signalFd notificationFd timer) es s) :
    s.Delivering config := by
  refine hr.invariant ⟨?_, ?_, ?_, ?_⟩ fun h hs => delivering_step hs h
  · exact feeding_run .nil
  · simp [init, Reactor.init, Reactor.register]
  · simp [init, Reactor.init, Reactor.register]
  · simp [init, Reactor.init, Reactor.register]

end System
end WebHtop.Server
