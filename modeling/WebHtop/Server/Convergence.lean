import WebHtop.Server.Provenance

/-!
# Convergence

A generation that is stored and not yet broadcast is on its way: the worker is about to write the
eventfd, or the reactor is about to read it. Once both are done and a queue is empty, the subscriber
has read the latest generation last. From any state the server gets there by steps that collect
nothing.
-/

namespace WebHtop.Server

open WebHtop.Lib WebHtop.Common WebHtop.Server.Collectors WebHtop.Server.Http

/-! ## Wake-ups -/

namespace System

variable {config : ReactorConfig} {s s' : System}

/-- The latest generation has been broadcast, or a wake-up is on its way. -/
def Announced (s : System) : Prop :=
  s.reactor.lastSequence = s.latestSequence ∨ s.unnotified = true ∨ s.eventfd ≠ 0

/-- A broadcast catches up with the worker. -/
theorem lastSequence_broadcast (h : s.Feeding config) {event : Event} {r : Reactor}
    (ha : Acts config s.latest s.reactor event r) (hb : event.broadcasts = true) :
    r.lastSequence = s.latestSequence := by
  rw [(lastSequence_acts ha h.chronicle h.fed).2 hb]
  have hbehind := h.behind
  unfold latestSequence at hbehind ⊢
  cases hl : s.latest with
  | none =>
      rw [hl] at hbehind
      exact Nat.le_zero.mp hbehind
  | some published => rfl

theorem announced_step {e : Event} (hs : Step config s e s') (h : s.Feeding config)
    (ha : s.Announced) : s'.Announced := by
  -- A handler that leaves the wake-ups alone.
  have hquiet : ∀ (f : Reactor → Reactor), s.react f = some s' →
      Acts config s.latest s.reactor e (f s.reactor) → s'.Announced := by
    intro f hreact hacts
    obtain rfl := react_eq hreact
    cases hb : e.broadcasts with
    | true => exact .inl (lastSequence_broadcast h hacts hb)
    | false =>
        rcases ha with heq | hrest
        · exact .inl (((lastSequence_acts hacts h.chronicle h.fed).1 hb).trans heq)
        · exact .inr hrest
  unfold Step StepsOf at hs
  cases e with
  | publish frame =>
      simp only [step, publish] at hs
      split at hs
      · obtain rfl := Option.some.inj hs
        exact .inr (.inl rfl)
      · cases hs
  | publishFailed =>
      simp only [step] at hs
      split at hs
      · cases hs
      · obtain rfl := Option.some.inj hs
        exact ha
  | notify =>
      simp only [step] at hs
      split at hs
      · obtain rfl := Option.some.inj hs
        exact .inr (.inr (Nat.succ_ne_zero _))
      · cases hs
  | accept streaming result =>
      simp only [step] at hs
      refine hquiet _ hs ?_
      split
      · exact .paused streaming result ‹_›
      · exact .accept streaming result ‹_›
  | session token ready recvs sends limit route =>
      simp only [step] at hs
      exact hquiet _ hs (.handle token ready recvs sends limit route)
  | notification =>
      simp only [step] at hs
      split at hs
      · cases hs
      · obtain rfl := react_eq hs
        exact .inl (lastSequence_broadcast h .notification rfl)
  | sweep => exact hquiet _ hs .sweep
  | timerBroadcast =>
      simp only [step] at hs
      exact hquiet _ hs .timerBroadcast
  | rehash i =>
      simp only [step] at hs
      exact hquiet _ hs (.rehash i)
  | elapse n =>
      simp only [step] at hs
      exact hquiet _ hs (.elapse n)
  | shutdown => exact hquiet _ hs .shutdown

variable {httpListener streamListener signalFd notificationFd timer : Nat} {es : List Event}

/-- No wake-up is lost between the worker and the reactor. -/
theorem announced_run
    (hr : Run (Step config) (init httpListener streamListener signalFd notificationFd timer) es s) :
    s.Announced := by
  induction hr with
  | nil => exact .inl rfl
  | snoc hrun hstep ih => exact announced_step hstep (feeding_run hrun) ih

end System

/-! ## Empty queues -/

/-- With an empty queue everything has been sent that was not superseded, the newest buffer last. -/
theorem Session.Told.drained {clock : Nat} {s : Session} (h : s.Told clock)
    (hempty : s.output.empty = true) :
    ∃ whole : List Buffer, sentOf s.log = whole.flatMap Buffer.bytes ∧
      whole.Sublist (enqueuedOf s.log) ∧ whole.getLast? = (enqueuedOf s.log).getLast? := by
  have hcurrent : s.output.current = none := by
    rwa [OutputQueue.empty, Option.isNone_iff_eq_none] at hempty
  have hitems : s.output.items = [] := by
    rw [OutputQueue.items, hcurrent, (h.valid.idle hcurrent).1]
    rfl
  have horder := h.kept.order
  have hnewest := h.kept.newest
  have hcontent := h.kept.content
  rw [historyOf_pushed, h.queue, hitems, List.append_nil] at horder hnewest
  rw [h.consumed, History.partSent, h.queue, hcurrent] at hcontent
  exact ⟨_, hcontent.trans (List.append_nil _), horder, hnewest⟩

namespace ServerApp

variable {D : Type} [Double D] [LawfulDouble D] {launch : Launch} {s s' : ServerApp D}
  {next : TimePoint} {httpListener streamListener signalFd notificationFd timer : Nat}
  {es : List (Event D)}

omit [LawfulDouble D] in
theorem Publishing.unique (h : Publishing launch s) {g g' : Generation D} (hg : g ∈ s.published)
    (hg' : g' ∈ s.published) (hsequence : g.sequence = g'.sequence) : g = g' := by
  have hnodup : (s.published.map Generation.sequence).Nodup := h.increasing.imp Nat.ne_of_lt
  exact List.inj_on_of_nodup_map hnodup hg hg' hsequence

omit [LawfulDouble D] in
theorem Publishing.le_latest (h : Publishing launch s) {g g' : Generation D} (hg : g ∈ s.published)
    (hlatest : s.latest = some g') : g.sequence ≤ g'.sequence := by
  obtain ⟨front, hpublished⟩ := List.getLast?_eq_some_iff.mp (h.latest.symm.trans hlatest)
  have hincreasing := h.increasing
  rw [hpublished, List.map_append, List.pairwise_append] at hincreasing
  rw [hpublished] at hg
  rcases List.mem_append.mp hg with hg | hg
  · exact (hincreasing.2.2 _ (List.mem_map_of_mem hg) _ List.mem_cons_self).le
  · exact (congrArg Generation.sequence (List.mem_singleton.mp hg)).le

/-- Between two generations, with every wake-up handled. -/
structure Quiet (s : ServerApp D) : Prop where
  notified : s.phase ≠ .notifying
  read : s.eventfd = 0

/-- In a quiet state a subscriber with an empty queue has read the latest generation last, and no part
of another. -/
theorem drained_run
    (hr : Run (Where (Step launch) Unwrapped)
      (init next httpListener streamListener signalFd notificationFd timer) es s)
    (hq : s.Quiet) {e : Nat × Session} (he : e ∈ s.reactor.sessions) (hstream : e.2.streaming = true)
    (hempty : e.2.output.empty = true) :
    ∃ gs : List (Generation D), cut frontFrame (sentOf e.2.log) = (gs.map fun g => g.val.json, some []) ∧
      gs.getLast? = s.latest ∧ ∀ g ∈ gs, g ∈ s.published := by
  obtain ⟨ds, hsystem⟩ := system_run hr
  have hpublishing := publishing_run hr
  have hdelivering := System.delivering_run hsystem
  obtain ⟨all, hall, hmem⟩ := (traced_run hr).streams e (List.mem_append_left _ he) hstream
  obtain ⟨whole, hsent, hwhole, hlast⟩ :=
    (hdelivering.feeding.chronicle.live e he).told.drained hempty
  rw [hall] at hwhole hlast
  obtain ⟨gs, hgs, rfl⟩ := List.sublist_map_iff.mp hwhole
  have hcaught : s.reactor.lastSequence = s.toSystem.latestSequence := by
    rcases System.announced_run hsystem with h | h | h
    · exact h
    · exact absurd (of_decide_eq_true h) hq.notified
    · exact absurd hq.read h
  have hcut : cut frontFrame (sentOf e.2.log) = (gs.map fun g => g.val.json, some []) := by
    rw [hsent, List.flatMap_map, ← List.append_nil (gs.flatMap _)]
    exact selfDelimiting_frontFrame.cut_whole Generation.front gs rfl
  refine ⟨gs, hcut, ?_, fun g hg => hmem g (hgs.subset hg)⟩
  -- The newest buffer has the number of the latest generation.
  rw [List.getLast?_map, List.getLast?_map] at hlast
  have hfed := hdelivering.feeding.fed e he hstream
  have hbounded := (hdelivering.live e he hstream).numbered.bounded
  rw [show s.toSystem.reactor.lastSequence = _ from hcaught, System.newest, hall,
    List.getLast?_map] at hfed
  rw [numbersOf, hall, List.filterMap_map] at hbounded
  have hsequence : ∀ g : Generation D, g.buffer.sequence = some g.sequence := fun _ => rfl
  have hlatest : s.toSystem.latestSequence = (s.latest.map Generation.sequence).getD 0 := by
    show ((s.latest.map Generation.transported).map Published.sequence).getD 0 = _
    rw [Option.map_map]
    rfl
  cases hgsl : gs.getLast? with
  | none =>
      rw [hgsl] at hlast
      rw [← hlast] at hfed
      cases hl : s.latest with
      | none => rfl
      | some g =>
          have hpositive := (hpublishing.bounded g (hpublishing.mem_published hl)).1
          rw [hlatest, hl] at hfed
          exact absurd (hpositive.trans hfed) (by simp)
  | some g =>
      rw [hgsl] at hlast
      have hg := hmem g (hgs.subset (List.mem_of_getLast? hgsl))
      rw [← hlast] at hfed
      have hnewest : s.toSystem.latestSequence ≤ g.sequence := hfed
      have hle : g.sequence ≤ s.toSystem.latestSequence :=
        hbounded _ (List.mem_filterMap.mpr ⟨g, hgs.subset (List.mem_of_getLast? hgsl), hsequence g⟩)
      have hpositive := (hpublishing.bounded g hg).1
      rw [hlatest] at hnewest hle
      cases hl : s.latest with
      | none =>
          rw [hl] at hle
          exact absurd (hpositive.trans hle) (by simp)
      | some g' =>
          rw [hl] at hnewest hle
          have hsame := hpublishing.unique hg (hpublishing.mem_published hl) (le_antisymm hle hnewest)
          rw [hsame]

end ServerApp

/-! ## Draining -/

/-- Write with one byte taken. -/
theorem write_byte {s : Session} (hv : s.output.Valid) (hwaiting : s.output.empty = false)
    (token : Nat) (m : Meter) :
    ∃ s' m', writeLoop token kWriteBudget [.accepted 1 0] s m =
        (s'.streaming || !s'.output.empty, s', m') ∧
      s'.streaming = s.streaming ∧ s'.output.bytes + 1 = s.output.bytes := by
  obtain ⟨b, hb⟩ : ∃ b, s.output.current = some b := by
    rwa [OutputQueue.empty, Option.isNone_eq_false_iff, Option.isSome_iff_exists] at hwaiting
  have hfront := OutputQueue.front_length hb
  have hoffset := hv.offset_lt b hb
  have hwritten : min 1 (min s.output.front.length kWriteBudget) = 1 := by
    rw [hfront, kWriteBudget]
    omega
  obtain ⟨output, houtput⟩ : ∃ output, s.output.consume 1 = some output := by
    rcases OutputQueue.consume_cases hv hb (by omega : 1 ≤ s.output.front.length) with h | h
    · exact ⟨_, h.2⟩
    · exact ⟨_, h.2⟩
  have hcontinue : ¬ (kWriteBudget = 0 ∨ s.output.empty = true) := by simp [kWriteBudget, hwaiting]
  simp only [writeLoop, if_neg hcontinue, hwritten, if_neg Nat.one_ne_zero, houtput]
  refine ⟨{ s with
      output := output
      lastProgress := _
      log := _ }, _, rfl, rfl, OutputQueue.bytes_consume hv houtput⟩

namespace Reactor

variable {config : ReactorConfig} {r : Reactor} {token : Nat} {s : Session}

/-- EPOLLOUT for a session, and send takes one byte. No subscriber leaves. -/
theorem handle_byte (ha : r.Accounts config) (hg : r.sessions.get token = some s)
    (hwaiting : s.output.empty = false) (limit : Buffer) (route : Bytes → Buffer) :
    let r' := r.handle limit route token { output := true } [] [.accepted 1 0]
    r'.queuedBytes < r.queuedBytes ∧ r'.stopped = r.stopped ∧
      ∀ e ∈ r.sessions, e.2.streaming = true → ∃ x, (e.1, x) ∈ r'.sessions ∧ x.streaming = true := by
  intro r'
  have ha' : r'.Accounts config := accounts_handle ha limit route token _ _ _
  have hkey := Table.mem_keys_of_get hg
  have hv : s.output.Valid := ha.valid _ (Table.mem_of_get hg)
  obtain ⟨s', m', hwrite, hstream, hbytes⟩ := write_byte hv hwaiting token r.toMeter
  have hset : Table.total (fun s => s.output.bytes) (r.sessions.set token s') + s.output.bytes =
      Table.total (fun s => s.output.bytes) r.sessions + s'.output.bytes :=
    Table.total_set ha.distinct hg
  have hnew : (r.sessions.set token s').get token = some s' := Table.get_set_self hkey
  have hserve : Meter.serve limit route token { output := true } [] [.accepted 1 0] s r.toMeter =
      (s'.streaming || !s'.output.empty, s', m') := by
    simp [Meter.serve, hwrite]
  have hr' : r' = if (s'.streaming || !s'.output.empty) = true then
      modify { r with toMeter := m', sessions := r.sessions.set token s' } token s'
      else close { r with toMeter := m', sessions := r.sessions.set token s' } token := by
    show r.handle limit route token { output := true } [] [.accepted 1 0] = _
    rw [Meter.handle_eq limit route _ _ _ hg, hserve]
  rw [ha.queued, ha'.queued, hr']
  split
  · -- The session stays, with a byte less.
    refine ⟨?_, rfl, fun e he hs => ?_⟩
    · show Table.total _ (r.sessions.set token s') < _
      omega
    · by_cases htoken : e.1 = token
      · refine ⟨s', (Table.mem_set_iff hkey).mpr (.inl (by rw [htoken])), ?_⟩
        have hsame := Table.get_of_mem ha.distinct he
        rw [htoken, hg] at hsame
        rw [hstream, Option.some.inj hsame, hs]
      · exact ⟨e.2, (Table.mem_set_iff hkey).mpr (.inr ⟨he, htoken⟩), hs⟩
  · -- A request session whose answer is sent.
    rename_i hdone
    rw [Bool.or_eq_true, not_or] at hdone
    simp only [close, hnew]
    refine ⟨?_, rfl, fun e he hs => ?_⟩
    · show Table.total _ ((r.sessions.set token s').erase token) < _
      rw [Table.erase_set]
      have herase : Table.total (fun s => s.output.bytes) (r.sessions.erase token) + s.output.bytes =
          Table.total (fun s => s.output.bytes) r.sessions := Table.total_erase ha.distinct hg
      omega
    · have htoken : e.1 ≠ token := by
        intro htoken
        have hsame := Table.get_of_mem ha.distinct he
        rw [htoken, hg] at hsame
        rw [hstream, Option.some.inj hsame] at hdone
        exact hdone.1 hs
      refine ⟨e.2, ?_, hs⟩
      show (e.1, e.2) ∈ (r.sessions.set token s').erase token
      rw [Table.erase_set]
      exact Table.mem_erase_iff.mpr ⟨he, htoken⟩

/-- A queue that holds bytes. -/
theorem exists_waiting (ha : r.Accounts config) (hpositive : r.queuedBytes ≠ 0) :
    ∃ token s, r.sessions.get token = some s ∧ s.output.empty = false := by
  by_contra hnone
  push Not at hnone
  refine hpositive (ha.queued.trans (List.sum_eq_zero ?_))
  simp only [List.forall_mem_map]
  intro e he
  have hempty := hnone e.1 e.2 (Table.get_of_mem ha.distinct he)
  exact (OutputQueue.bytes_eq_zero (ha.valid e he)).mpr (Bool.eq_true_of_not_eq_false hempty)

end Reactor

namespace ServerApp

variable {D : Type} [Double D] [LawfulDouble D] {launch : Launch} {s s' s'' : ServerApp D}
  {next : TimePoint} {httpListener streamListener signalFd notificationFd timer : Nat}
  {es : List (Event D)}

/-- The steps that bring what is published to the subscribers. The least that a send can take is
enough. -/
inductive Forwards : Event D → Prop
  | notify : Forwards .notify
  | notification : Forwards .notification
  | session (token : Nat) (readings : Readings) :
      Forwards (.session token { output := true } [] [.accepted 1 0] readings)

/-- Only the queues of the sessions have changed, and no subscriber has left. -/
structure Emptied (s s' : ServerApp D) : Prop where
  worker : s'.worker = s.worker
  phase : s'.phase = s.phase
  latest : s'.latest = s.latest
  eventfd : s'.eventfd = s.eventfd
  published : s'.published = s.published
  stopped : s'.reactor.stopped = s.reactor.stopped
  subscribers : ∀ e ∈ s.reactor.sessions, e.2.streaming = true →
    ∃ x, (e.1, x) ∈ s'.reactor.sessions ∧ x.streaming = true

omit [LawfulDouble D] in
theorem Emptied.refl (s : ServerApp D) : Emptied s s :=
  ⟨rfl, rfl, rfl, rfl, rfl, rfl, fun e he hs => ⟨e.2, he, hs⟩⟩

omit [LawfulDouble D] in
theorem Emptied.trans (h : Emptied s s') (h' : Emptied s' s'') : Emptied s s'' := by
  refine ⟨h'.worker.trans h.worker, h'.phase.trans h.phase, h'.latest.trans h.latest,
    h'.eventfd.trans h.eventfd, h'.published.trans h.published, h'.stopped.trans h.stopped, ?_⟩
  intro e he hs
  obtain ⟨x, hx, hxs⟩ := h.subscribers e he hs
  exact h'.subscribers (e.1, x) hx hxs

/-- The queues run empty: each byte that is taken is one less to send. -/
theorem empties (readings : Readings) (ha : s.reactor.Accounts launch.config)
    (hrunning : s.reactor.stopped = false) (hs : s.worker.sequence.toNat + 1 < 2 ^ 64) :
    ∃ ds s', Run (Where (Step launch) Unwrapped) s ds s' ∧ (∀ d ∈ ds, Forwards d) ∧ Emptied s s' ∧
      s'.reactor.queuedBytes = 0 := by
  generalize hn : s.reactor.queuedBytes = n
  induction n using Nat.strongRecOn generalizing s with
  | ind n ih =>
      by_cases hzero : n = 0
      · exact ⟨[], s, .nil, List.forall_mem_nil _, .refl s, hn.trans hzero⟩
      obtain ⟨token, x, hg, hwaiting⟩ := Reactor.exists_waiting ha (hn ▸ hzero)
      obtain ⟨hless, hstopped, hsubscribers⟩ :=
        Reactor.handle_byte ha hg hwaiting headerLimit (respond (s.pages launch readings))
      let t : ServerApp D :=
        { s with
          reactor := s.reactor.handle headerLimit (respond (s.pages launch readings)) token
            { output := true } [] [.accepted 1 0] }
      have hstep : Step launch s (.session token { output := true } [] [.accepted 1 0] readings) t :=
        if_neg (Bool.eq_false_iff.mp hrunning)
      have hbyte : Emptied s t := ⟨rfl, rfl, rfl, rfl, rfl, hstopped, hsubscribers⟩
      obtain ⟨ds, s', hrun, hds, hemptied, hdone⟩ := ih _ (hless.trans_eq hn) (s := t)
        (Reactor.accounts_handle ha _ _ token _ _ _) (hstopped.trans hrunning) hs rfl
      exact ⟨_ :: ds, s', (Run.single ⟨hs, hstep⟩).trans hrun,
        List.forall_mem_cons.mpr ⟨.session token readings, hds⟩, hbyte.trans hemptied, hdone⟩

/-- The worker and its generations are left alone, and the reactor goes on. -/
structure Rests (s s' : ServerApp D) : Prop where
  worker : s'.worker = s.worker
  latest : s'.latest = s.latest
  published : s'.published = s.published
  running : s'.reactor.stopped = false

theorem stopped_broadcast (r : Reactor) (latest : Option Published) :
    (r.broadcast latest).stopped = r.stopped := by
  have hone : ∀ (published : Published) (r : Reactor) (token : Nat),
      (Reactor.broadcastTo published r token).stopped = r.stopped := by
    intro published r token
    unfold Reactor.broadcastTo
    split
    · rfl
    · split
      · rfl
      · simp only
        split
        · rfl
        · unfold Reactor.close
          split <;> rfl
  cases latest with
  | none => rfl
  | some published =>
      simp only [Reactor.broadcast]
      split
      · rfl
      · exact List.foldlRecOn _ _
          (motive := fun r' : Reactor => r'.stopped = r.stopped) rfl
          fun r' hr token _ => (hone published r' token).trans hr

/-- The wake-ups are handled, if there are any. -/
theorem settles (hrunning : s.reactor.stopped = false) (hs : s.worker.sequence.toNat + 1 < 2 ^ 64) :
    ∃ ds s', Run (Where (Step launch) Unwrapped) s ds s' ∧ (∀ d ∈ ds, Forwards d) ∧ s'.Quiet ∧
      Rests s s' ∧ (s.Quiet → s' = s) := by
  obtain ⟨ds, t, hrun, hds, hphase, hrests, hsame⟩ : ∃ ds t,
      Run (Where (Step launch) Unwrapped) s ds t ∧ (∀ d ∈ ds, Forwards d) ∧ t.phase ≠ .notifying ∧
        Rests s t ∧ (s.Quiet → t = s) := by
    by_cases hphase : s.phase = .notifying
    · let t : ServerApp D := { s with phase := .catchingUp, eventfd := s.eventfd + 1 }
      have hstep : Step launch s .notify t := if_pos hphase
      exact ⟨[.notify], t, .single ⟨hs, hstep⟩, List.forall_mem_singleton.mpr .notify, nofun,
        ⟨rfl, rfl, rfl, hrunning⟩, fun hq => absurd hphase hq.notified⟩
    · exact ⟨[], s, .nil, List.forall_mem_nil _, hphase, ⟨rfl, rfl, rfl, hrunning⟩, fun _ => rfl⟩
  by_cases hread : t.eventfd = 0
  · exact ⟨ds, t, hrun, hds, ⟨hphase, hread⟩, hrests, hsame⟩
  · let s' : ServerApp D :=
      { t with
        eventfd := 0
        reactor := t.reactor.broadcast (t.latest.map Generation.transported) }
    have hstep : Step launch t .notification s' :=
      (if_neg hread).trans (if_neg (Bool.eq_false_iff.mp hrests.running))
    have hunwrapped : Unwrapped t Event.notification := by
      rw [Unwrapped, hrests.worker]
      exact hs
    exact ⟨ds ++ [.notification], s', .snoc hrun ⟨hunwrapped, hstep⟩,
      List.forall_mem_append.mpr ⟨hds, List.forall_mem_singleton.mpr .notification⟩, ⟨hphase, rfl⟩,
      ⟨hrests.worker, hrests.latest, hrests.published,
        (stopped_broadcast _ _).trans hrests.running⟩,
      fun hq => absurd (hsame hq ▸ hq.read) hread⟩

/-- From every reachable state in which the reactor runs, finitely many steps that collect nothing
bring the latest generation to every subscriber that is left, last of all that it has read. In a quiet
state none of them leaves. -/
theorem drains
    (hr : Run (Step launch) (init next httpListener streamListener signalFd notificationFd timer) es s)
    (hes : es.length + 1 < 2 ^ 64) (hrunning : s.reactor.stopped = false) (readings : Readings) :
    ∃ ds s', Run (Step launch) s ds s' ∧ (∀ d ∈ ds, Forwards d) ∧ s'.latest = s.latest ∧
      (∀ e ∈ s'.reactor.sessions, e.2.output.empty = true ∧ (e.2.streaming = true →
        ∃ gs : List (Generation D),
          cut frontFrame (sentOf e.2.log) = (gs.map fun g => g.val.json, some []) ∧
          gs.getLast? = s.latest)) ∧
      (s.Quiet → ∀ e ∈ s.reactor.sessions, e.2.streaming = true →
        ∃ x, (e.1, x) ∈ s'.reactor.sessions ∧ x.streaming = true) := by
  have hw := unwrapped_run hr (by omega)
  have hcount := sequence_run hr
  have hs : s.worker.sequence.toNat + 1 < 2 ^ 64 := by omega
  obtain ⟨ds, t, hsettle, hds, hquiet, hrests, hsame⟩ := settles hrunning hs
  obtain ⟨_, hsystem⟩ := system_run (hw.trans hsettle)
  obtain ⟨ds', s', hempty, hds', hemptied, hdone⟩ := empties readings
    (System.books_run hsystem).accounts hrests.running (hrests.worker ▸ hs)
  have hwhole := (hw.trans hsettle).trans hempty
  obtain ⟨_, hsystem'⟩ := system_run hwhole
  have haccounts := (System.books_run hsystem').accounts
  have hquiet' : s'.Quiet := ⟨hemptied.phase ▸ hquiet.notified, hemptied.eventfd ▸ hquiet.read⟩
  refine ⟨ds ++ ds', s', (hsettle.trans hempty).of_where, List.forall_mem_append.mpr ⟨hds, hds'⟩,
    hemptied.latest.trans hrests.latest, fun e he => ?_, fun hq => ?_⟩
  · have hbytes := (Table.le_total (f := fun s => s.output.bytes)
      (Table.get_of_mem haccounts.distinct he)).trans_eq (haccounts.queued.symm.trans hdone)
    have hdrained := (OutputQueue.bytes_eq_zero (haccounts.valid e he)).mp (Nat.le_zero.mp hbytes)
    refine ⟨hdrained, fun hstream => ?_⟩
    obtain ⟨gs, hcut, hlast, -⟩ := drained_run hwhole hquiet' he hstream hdrained
    exact ⟨gs, hcut, hlast.trans (hemptied.latest.trans hrests.latest)⟩
  · obtain rfl := hsame hq
    exact hemptied.subscribers

theorem drains_greeted : ∃ s, follow (step local_) start (greeted ++ [.notification]) = some s ∧
    ∃ ds s' x, Run (Step local_) s ds s' ∧ (16, x) ∈ s'.reactor.sessions ∧
      ∃ gs : List (Generation Integral),
        cut frontFrame (sentOf x.log) = (gs.map fun g => g.val.json, some []) ∧
        gs.getLast? = s.latest := by
  have hsome : ((follow (step local_) start (greeted ++ [.notification])).map fun s =>
      (s.reactor.stopped, s.phase, s.eventfd, s.reactor.sessions.map fun e => (e.1, e.2.streaming))) =
      some (false, .sampling, 0, [(16, true)]) := by decide +kernel
  obtain ⟨s, hs, hparts⟩ := Option.map_eq_some_iff.mp hsome
  simp only [Prod.mk.injEq] at hparts
  obtain ⟨hrunning, hphase, hread, hsessions⟩ := hparts
  obtain ⟨⟨n, x⟩, l, hl, hx, -⟩ := List.map_eq_cons_iff.mp hsessions
  rw [Prod.mk.injEq] at hx
  obtain ⟨rfl, hstream⟩ := hx
  obtain ⟨ds, s', hrun, -, -, hdrained, hkept⟩ :=
    drains (run_of_follow hs) (by decide) hrunning System.quiet
  obtain ⟨y, hy, hstream'⟩ := hkept ⟨by simp [hphase], hread⟩ (16, x) (by simp [hl]) hstream
  exact ⟨s, hs, ds, s', y, hrun, hy, (hdrained (16, y) hy).2 hstream'⟩

end ServerApp
end WebHtop.Server
