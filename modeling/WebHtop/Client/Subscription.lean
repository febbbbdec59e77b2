import WebHtop.Client.Freeze
import WebHtop.Client.Recording
import WebHtop.Client.StreamRuns
import WebHtop.Server.Provenance

/-!
# From the worker to the screen

A client whose connections carry what one server sends: the network may cut off the bytes of a
connection anywhere. Whatever the client hands on, accepts and shows are generations that the worker
of that server has published, with the strings that were no UTF-8 repaired.
-/

namespace WebHtop.Client

open WebHtop.Lib WebHtop.Common WebHtop.Server

variable {D : Type}

/-! ## Documents of generations -/

section

variable [Double D]

/-- The client decodes the document of the generation to this snapshot. -/
def Reads (g : Generation D) (s : SystemSnapshot D) : Prop := decode g.val.json = .ok s

variable {g : Generation D} {s : SystemSnapshot D}

theorem Reads.equal [LawfulDouble D] [PlainNotation D] (h : Reads g s) :
    s.Equal g.val.snapshot.repaired := (repaired_of_decode g.encoded h).2.2

theorem Reads.telemetry [LawfulDouble D] [PlainNotation D] (h : Reads g s) :
    s.telemetry.sequence.toNat = g.sequence ∧
      s.telemetry.instanceId = Utf8.repair g.val.snapshot.telemetry.instanceId := by
  have htelemetry := (SystemSnapshot.mk.inj h.equal).1
  simp only [TelemetryInfo.map, TelemetryInfo.mk.injEq] at htelemetry
  obtain ⟨-, hsequence, -, -, -, -, -, -, -, -, hinstance, -⟩ := htelemetry
  exact ⟨congrArg UInt64.toNat hsequence, hinstance⟩

/-- The snapshots of a connection that has received a beginning of a stream of generations. -/
theorem snapshots_read {gs : List (Generation D)} {sent part received : Bytes}
    (hcut : cut frontFrame sent = (gs.map fun g => g.val.json, some part)) (hp : received <+: sent) :
    ∃ gs', gs' <+: gs ∧ List.Forall₂ Reads gs' (snapshots received) := by
  obtain ⟨rest, rfl⟩ := hp
  have hbegins := selfDelimiting_frontFrame.cut_prefix received rest
  rw [hcut] at hbegins
  obtain ⟨ps, hps, hread⟩ := takeOk_read (decode (D := D)) (cut frontFrame received).1
  obtain ⟨gs', hgs', rfl⟩ := List.prefix_map_iff.mp (hps.trans hbegins)
  exact ⟨gs', hgs', (List.forall₂_map_left_iff (f := fun g : Generation D => g.val.json)).mp hread⟩

/-- A list of related values, chosen one by one. -/
theorem exists_forall₂ {α β : Type} {R : α → β → Prop} {bs : List β} (h : ∀ b ∈ bs, ∃ a, R a b) :
    ∃ as, List.Forall₂ R as bs := by
  induction bs with
  | nil => exact ⟨[], .nil⟩
  | cons b bs ih =>
      obtain ⟨⟨a, ha⟩, hbs⟩ := List.forall_mem_cons.mp h
      obtain ⟨as, has⟩ := ih hbs
      exact ⟨a :: as, .cons ha has⟩

theorem forall₂_source {α β : Type} {R : α → β → Prop} {as : List α} {bs : List β}
    (h : List.Forall₂ R as bs) : ∀ b ∈ bs, ∃ a ∈ as, R a b := by
  induction h with
  | nil => exact List.forall_mem_nil _
  | @cons a b as bs hab _ ih =>
      refine List.forall_mem_cons.mpr ⟨⟨a, List.mem_cons_self, hab⟩, fun b' hb' => ?_⟩
      obtain ⟨a', ha', hab'⟩ := ih b' hb'
      exact ⟨a', List.mem_cons_of_mem _ ha', hab'⟩

end

/-! ## Connections -/

section

variable [Double D] [LawfulDouble D]

/-- Each connection has received a beginning of what one subscriber of the server has been sent. -/
def Wired (s : ServerApp D) (h : History D) : Prop :=
  ∀ x ∈ h.all, ∃ e ∈ s.reactor.sessions ++ s.reactor.closed,
    e.2.streaming = true ∧ x.received <+: sentOf e.2.log

variable {launch : Launch} {s : ServerApp D} {next : Collectors.TimePoint}
  {httpListener streamListener signalFd notificationFd timer : Nat} {es : List (ServerApp.Event D)}
  {addresses : List Address} {c₀ c : StreamConnection D} {events : List StreamConnection.Event}
  {h : History D}

/-- What a connection hands on are published generations in the order of their numbers, and behind
the first none comes twice. -/
theorem connection_reads
    (hr : Run (ServerApp.Step launch)
      (ServerApp.init next httpListener streamListener signalFd notificationFd timer) es s)
    (hes : es.length < 2 ^ 64) (hwired : Wired s h) {x : Connection D} (hx : x ∈ h.all) :
    ∃ gs : List (Generation D), List.Forall₂ Reads gs (snapshots x.received) ∧
      (gs.map Generation.sequence).Pairwise (· ≤ ·) ∧ gs.tail.Sublist s.published ∧
      ∀ g ∈ gs, g ∈ s.published := by
  have hw := ServerApp.unwrapped_run hr hes
  obtain ⟨e, he, hstream, hbegins⟩ := hwired x hx
  obtain ⟨all, part, hcut, hmem, hnumbered⟩ := ServerApp.streams_run hw he hstream
  obtain ⟨gs, hgs, hread⟩ := snapshots_read hcut hbegins
  have hnumbers := hnumbered.sublist (hgs.sublist.map Generation.sequence)
  have hpublished : ∀ g ∈ gs, g ∈ s.published := fun g hg => hmem g (hgs.subset hg)
  exact ⟨gs, hread, hnumbers.sorted,
    tail_sublist (ServerApp.publishing_run hw).increasing hnumbers.increasing hpublished, hpublished⟩

omit [LawfulDouble D] in
theorem tells_run (hi : StreamConnection.init addresses = some c₀)
    (hc : follow StreamConnection.step c₀ events = some c) (hh : History.ofLog c.log = some h) :
    StreamConnection.Tells c h := by
  obtain ⟨c', hc', h', htells⟩ : ∃ c', follow StreamConnection.step c₀ events = some c' ∧
      ∃ h', StreamConnection.Tells c' h' :=
    follow_total (I := fun c => ∃ h, StreamConnection.Tells c h)
      ⟨{}, StreamConnection.init_tells hi⟩
      (fun e hI => by
        obtain ⟨h', htells⟩ := hI
        exact StreamConnection.step_tells htells e) events
  obtain rfl := Option.some.inj (hc.symm.trans hc')
  obtain rfl := Option.some.inj (hh.symm.trans htells.log)
  exact htells

/-- Everything that the connection hands on was published. -/
theorem handed_published
    (hr : Run (ServerApp.Step launch)
      (ServerApp.init next httpListener streamListener signalFd notificationFd timer) es s)
    (hes : es.length < 2 ^ 64) (hi : StreamConnection.init addresses = some c₀)
    (hc : follow StreamConnection.step c₀ events = some c) (hh : History.ofLog c.log = some h)
    (hwired : Wired s h) :
    ∀ snapshot ∈ c.handed, ∃ g ∈ s.published, Reads g snapshot := by
  have htells := tells_run hi hc hh
  have hhanded : c.handed = h.all.flatMap Connection.handed := by
    have hlog := StreamConnection.handed_ofLog htells.log
    exact hlog.symm
  have hsame : ∀ x ∈ h.all, x.handed = snapshots x.received := by
    intro x hx
    rcases List.mem_append.mp hx with hx | hx
    · exact htells.past x hx
    · rcases htells.present with ⟨-, hnone⟩ | ⟨y, seen, hsome, hfaithful, -⟩
      · rw [hnone] at hx
        cases hx
      · rw [hsome] at hx
        obtain rfl := List.mem_singleton.mp hx
        exact hfaithful.handed
  intro snapshot hsnapshot
  rw [hhanded] at hsnapshot
  obtain ⟨x, hx, hmem⟩ := List.mem_flatMap.mp hsnapshot
  rw [hsame x hx] at hmem
  obtain ⟨gs, hread, -, -, hpublished⟩ := connection_reads hr hes hwired hx
  obtain ⟨g, hg, hreads⟩ := forall₂_source hread snapshot hmem
  exact ⟨g, hpublished g hg, hreads⟩

end

/-! ## The screen -/

namespace ClientApp

variable [Arithmetic D] {a a' : ClientApp D}

/-- What is on the screen has been accepted. -/
def Shown (a : ClientApp D) : Prop := ∀ v ∈ a.visible, ∃ r ∈ accepted a.log, r.snapshot = v

omit [Arithmetic D] in
theorem Shown.same (h : Shown a) (hvisible : a'.visible = a.visible) (hlog : a'.log = a.log) :
    Shown a' := by
  unfold Shown
  rw [hvisible, hlog]
  exact h

theorem accept_visible {snapshot : SystemSnapshot D} {now : Int} {written : Bool}
    (h : a.accept snapshot now written = some a') :
    a'.visible = a.visible ∨ a'.visible = some snapshot := by
  obtain ⟨a₁, hwrite, h⟩ := Option.bind_eq_some_iff.mp h
  obtain ⟨a₂, hprint, h⟩ := Option.bind_eq_some_iff.mp h
  obtain ⟨-, ha₁⟩ := writeRecord_spec hwrite
  have ha₂ := print_spec hprint
  have hshow : ∀ b : ClientApp D,
      (show_ b snapshot).visible = b.visible ∨ (show_ b snapshot).visible = some snapshot := by
    intro b
    unfold show_
    split
    · exact .inl rfl
    · exact .inr rfl
  obtain rfl := Option.some.inj h
  have hfinal := hshow { a₂ with current := some snapshot, last := now }
  rw [ha₂, ha₁] at hfinal ⊢
  split <;> exact hfinal

theorem receive_shown {snapshot : SystemSnapshot D} {now : Int} {written : Bool}
    (h : a.receive snapshot now written = some a') (hs : Shown a) : Shown a' := by
  by_cases hopen : a.once = true ∧ a.quit = true
  · rw [receive, if_pos hopen] at h
    exact Option.some.inj h ▸ hs
  -- Either way the log only grows, and by this snapshot.
  have hlog : ∃ r : Receipt D, r.snapshot = snapshot ∧ a'.log = a.log ++ [r] ∧
      (a'.visible = a.visible ∨ (a'.visible = some snapshot ∧ r.accepted = true)) := by
    rw [receive, if_neg hopen] at h
    split at h
    · split at h
      · obtain rfl := Option.some.inj h
        exact ⟨_, rfl, rfl, .inl rfl⟩
      · exact ⟨_, rfl, (accept_spec h).2.2.2.2, (accept_visible h).imp_right fun hv => ⟨hv, rfl⟩⟩
    · exact ⟨_, rfl, (accept_spec h).2.2.2.2, (accept_visible h).imp_right fun hv => ⟨hv, rfl⟩⟩
  obtain ⟨r, hr, hlog, hvisible⟩ := hlog
  intro v hv
  rw [hlog, accepted, List.filter_append]
  rcases hvisible with hvisible | ⟨hvisible, haccepted⟩
  · rw [hvisible] at hv
    obtain ⟨r', hr', hsame⟩ := hs v hv
    exact ⟨r', List.mem_append_left _ hr', hsame⟩
  · rw [hvisible] at hv
    obtain rfl := Option.mem_some_iff.mp hv
    exact ⟨r, List.mem_append_right _ (by simp [haccepted]), hr⟩

omit [Arithmetic D] in
theorem command_shown (key : UInt8) (hs : Shown a)
    (hcurrent : a.current = ((accepted a.log).getLast?).map Receipt.snapshot) :
    Shown (a.command key) := by
  by_cases hspace : key = ch ' '
  · subst hspace
    intro v hv
    have hlog : (a.command (ch ' ')).log = a.log := rfl
    rw [hlog]
    have hvisible : (a.command (ch ' ')).visible =
        if a.view.paused = true ∧ a.current.isSome = true then a.current else a.visible := rfl
    rw [hvisible] at hv
    split at hv
    · rw [hcurrent] at hv
      obtain ⟨r, hr, rfl⟩ := Option.map_eq_some_iff.mp hv
      exact ⟨r, List.mem_of_getLast? hr, rfl⟩
    · exact hs v hv
  · exact hs.same (command_screen hspace).visible (command_untouched a key).log

theorem step_shown {event : Event D} {recording : Bool} (h : a.step event = some a')
    (haccounted : Accounted recording a) (hs : Shown a) : Shown a' := by
  cases event with
  | received snapshot now written => exact receive_shown h hs
  | replayed line now written =>
      simp only [step, replayLine] at h
      split at h
      · cases h
      · split at h
        · cases h
        · exact receive_shown h hs
  | replayFinished => exact Option.some.inj h ▸ hs
  | key key =>
      obtain rfl := Option.some.inj h
      unfold pressKey
      split
      · have hvisible : (a.editFilter key).visible = a.visible := rfl
        exact hs.same hvisible (editFilter_untouched a key).log
      · exact command_shown key hs haccounted.current
  | draw reported now =>
      obtain rfl := Option.some.inj h
      exact hs.same (draw_screen a reported now).visible (draw_untouched a reported now).log

theorem run_shown {interactive recording replay : Bool} {events : List (Event D)}
    (h : follow step (start false interactive recording replay) events = some a) : Shown a := by
  have hrun := run_of_follow h
  clear h
  induction hrun with
  | nil => exact fun v hv => nomatch hv
  | snoc hrun hstep ih =>
      exact step_shown hstep (run_history (follow_of_run hrun)).accounted ih

end ClientApp

/-! ## From end to end -/

section

variable [Arithmetic D] [LawfulDouble D] [PlainNotation D]
  {launch : Launch} {s : ServerApp D} {next : Collectors.TimePoint}
  {httpListener streamListener signalFd notificationFd timer : Nat} {es : List (ServerApp.Event D)}
  {addresses : List Address} {c₀ c : StreamConnection D} {events : List StreamConnection.Event}
  {h : History D} {interactive recording replay : Bool} {inputs : List (Event D)} {a : ClientApp D}

omit [PlainNotation D] in
/-- Whatever the client has received is a published generation. -/
theorem receipts_published
    (hr : Run (ServerApp.Step launch)
      (ServerApp.init next httpListener streamListener signalFd notificationFd timer) es s)
    (hes : es.length < 2 ^ 64) (hi : StreamConnection.init addresses = some c₀)
    (hc : follow StreamConnection.step c₀ events = some c) (hh : History.ofLog c.log = some h)
    (hwired : Wired s h) (hlog : a.log.map Receipt.snapshot = c.handed) :
    ∀ r ∈ a.log, ∃ g ∈ s.published, Reads g r.snapshot := by
  intro r hmem
  refine handed_published hr hes hi hc hh hwired r.snapshot ?_
  rw [← hlog]
  exact List.mem_map_of_mem hmem

/-- One server is one instance, so everything received from it is one stretch. -/
theorem one_stretch (hpublishing : ServerApp.Publishing launch s)
    (hsource : ∀ r ∈ a.log, ∃ g ∈ s.published, Reads g r.snapshot) (hne : a.log ≠ []) :
    runs a.log = [a.log] := by
  refine Succession.stretches_one hne fun r hmem r' hmem' => ?_
  obtain ⟨g, hg, hreads⟩ := hsource r hmem
  obtain ⟨g', hg', hreads'⟩ := hsource r' hmem'
  show r.snapshot.telemetry.instanceId = r'.snapshot.telemetry.instanceId
  rw [hreads.telemetry.2, hreads'.telemetry.2, hpublishing.instanceId g hg,
    hpublishing.instanceId g' hg']

/-- In every run of a server and of a client whose connections all lead to it, the client accepts
published generations in the order of their publication and none twice, through reconnections, and
shows none but these. The strings come repaired, everything else comes as it was sampled. -/
theorem accepted_published
    (hr : Run (ServerApp.Step launch)
      (ServerApp.init next httpListener streamListener signalFd notificationFd timer) es s)
    (hes : es.length < 2 ^ 64) (hi : StreamConnection.init addresses = some c₀)
    (hc : follow StreamConnection.step c₀ events = some c) (hh : History.ofLog c.log = some h)
    (hwired : Wired s h)
    (ha : follow ClientApp.step (ClientApp.start false interactive recording replay) inputs = some a)
    (hinputs : inputs.filterMap ClientApp.handed = c.handed) :
    ∃ gs : List (Generation D), gs.Sublist s.published ∧
      List.Forall₂ (fun g r => r.snapshot.Equal g.val.snapshot.repaired) gs (accepted a.log) ∧
      ∀ v ∈ a.visible, ∃ g ∈ gs, v.Equal g.val.snapshot.repaired := by
  have hhistory := ClientApp.run_history ha
  have hpublishing := ServerApp.publishing_run (ServerApp.unwrapped_run hr hes)
  have hsource := receipts_published hr hes hi hc hh hwired (hhistory.handed.trans hinputs)
  have hrises : (accepted a.log).Pairwise fun r r' => r.sequence < r'.sequence := by
    by_cases hempty : a.log = []
    · rw [hempty]
      exact .nil
    · exact (hhistory.accounted.rising a.log (by simp [one_stretch hpublishing hsource hempty])).rises
  have hchosen : ∀ r ∈ accepted a.log, ∃ g : Generation D, g ∈ s.published ∧ Reads g r.snapshot :=
    fun r hmem => hsource r (List.mem_filter.mp hmem).1
  obtain ⟨gs, hgs⟩ := exists_forall₂ hchosen
  obtain ⟨hmem, hreads⟩ := (List.forall₂_and_left _ _).mp hgs
  have hnumbers : gs.map Generation.sequence = (accepted a.log).map Receipt.sequence := by
    have heq : List.Forall₂ (fun (g : Generation D) (r : Receipt D) => g.sequence = r.sequence) gs
        (accepted a.log) := hreads.imp fun _ _ hread => hread.telemetry.1.symm
    rw [← List.forall₂_eq_eq_eq, List.forall₂_map_left_iff, List.forall₂_map_right_iff]
    exact heq
  refine ⟨gs, sublist_published hpublishing.increasing ?_ hmem, hreads.imp fun _ _ hread => hread.equal,
    fun v hv => ?_⟩
  · rw [hnumbers, List.pairwise_map]
    exact hrises
  · obtain ⟨r, hr', rfl⟩ := ClientApp.run_shown ha v hv
    obtain ⟨g, hg, hread⟩ := forall₂_source hreads r hr'
    exact ⟨g, hg, hread.equal⟩

/-- What the first session has been sent in a run of the server. -/
def carried_ (events : List (ServerApp.Event Integral)) : Bytes :=
  ((follow (ServerApp.step ServerApp.local_) ServerApp.start events).bind fun s =>
    s.reactor.sessions.head?.map fun e => sentOf e.2.log).getD []

/-- The client connects and receives some bytes. -/
def watching (bytes : Bytes) : List StreamConnection.Event :=
  let pause : Pause := { now := 0, draw := 0 }
  let readings : Client.Readings := { frameStarted := fun _ => 0, lastFrame := fun _ => 0 }
  [.tick 0 (.connected 5) pause,
    .handle { pollin := true } true 0 [.data bytes readings, .wouldBlock] pause]

def watcher : StreamConnection Integral :=
  { addresses := [⟨2, []⟩], some_address := List.cons_ne_nil _ _ }

theorem accepted_published_served : ∃ s c a, follow (ServerApp.step ServerApp.local_) ServerApp.start
      ServerApp.served = some s ∧
    follow StreamConnection.step watcher (watching (carried_ ServerApp.served)) = some c ∧
    follow ClientApp.step (ClientApp.start false true false false)
      (c.handed.map fun snapshot => .received snapshot 0 true) = some a ∧
    ∃ (g : Generation Integral) (r : Receipt Integral), g ∈ s.published ∧ accepted a.log = [r] ∧
      r.snapshot.Equal g.val.snapshot.repaired := by
  obtain ⟨s, x, y, hs, hsessions, hstream, -⟩ := ServerApp.follow_served
  have hcarried : carried_ ServerApp.served = sentOf x.log := by simp [carried_, hs, hsessions]
  have hsome : ((follow StreamConnection.step watcher
        (watching (carried_ ServerApp.served))).map fun c =>
      ((History.ofLog c.log).map fun h => h.all.map Connection.received,
        (follow ClientApp.step (ClientApp.start false true false false)
          (c.handed.map fun snapshot => .received snapshot 0 true)).map fun a =>
            (accepted a.log).length)) = some (some [carried_ ServerApp.served], some 1) := by
    decide +kernel
  obtain ⟨c, hc, hpair⟩ := Option.map_eq_some_iff.mp hsome
  rw [Prod.mk.injEq] at hpair
  obtain ⟨h, hh, hall⟩ := Option.map_eq_some_iff.mp hpair.1
  obtain ⟨a, ha, hone⟩ := Option.map_eq_some_iff.mp hpair.2
  have hwired : Wired s h := by
    intro z hz
    have hreceived : z.received ∈ h.all.map Connection.received := List.mem_map_of_mem hz
    rw [hall, List.mem_singleton] at hreceived
    refine ⟨(16, x), by simp [hsessions], hstream, ?_⟩
    rw [hreceived, hcarried]
  have hinputs : (c.handed.map fun snapshot => Event.received snapshot 0 true).filterMap
      ClientApp.handed = c.handed := by
    rw [List.filterMap_map]
    exact List.filterMap_some
  obtain ⟨gs, hsub, hreads, -⟩ := accepted_published (run_of_follow hs) (by decide)
    (show StreamConnection.init [⟨2, []⟩] = some watcher from rfl) hc hh hwired ha hinputs
  obtain ⟨r, hr⟩ := List.length_eq_one_iff.mp hone
  rw [hr] at hreads
  obtain ⟨g, gs', hread, -, rfl⟩ := List.forall₂_cons_right_iff.mp hreads
  exact ⟨s, c, a, hs, hc, ha, g, r, hsub.subset List.mem_cons_self, hr, hread⟩

end

end WebHtop.Client
