import WebHtop.Server.Fragments
import WebHtop.Server.ServerApp

/-!
# Where the sent bytes come from

Over every run of the server, what a subscriber is sent are frames of published generations, and what
a request session is sent is the answer of Route to all that the session has received, from the
state in which the last of it was read.
-/

namespace WebHtop.Server

open WebHtop.Lib WebHtop.Lib.Lines WebHtop.Common WebHtop.Server.Collectors WebHtop.Server.Http

variable {D : Type} [Double D]

/-! ## Subscribers -/

/-- All that was enqueued are frames of these generations. -/
def FramesOf (published : List (Generation D)) (log : Log) : Prop :=
  ∃ gs : List (Generation D), enqueuedOf log = gs.map Generation.buffer ∧ ∀ g ∈ gs, g ∈ published

theorem FramesOf.mono {published published' : List (Generation D)} {log : Log}
    (h : FramesOf published log) (hsub : ∀ g ∈ published, g ∈ published') : FramesOf published' log := by
  obtain ⟨gs, hlog, hgs⟩ := h
  exact ⟨gs, hlog, fun g hg => hsub g (hgs g hg)⟩

theorem FramesOf.enqueue {published : List (Generation D)} {s : Session} (h : FramesOf published s.log)
    (m : Meter) {g : Generation D} (hg : g ∈ published) :
    FramesOf published (m.enqueue s g.buffer).2.1.log := by
  obtain ⟨gs, hlog, hgs⟩ := h
  refine ⟨gs ++ [g], ?_, List.forall_mem_append.mpr ⟨hgs, List.forall_mem_singleton.mpr hg⟩⟩
  rw [enqueuedOf_enqueue, hlog, List.map_append]
  rfl

/-! ## Requests -/

/-- The bytes received on a session. -/
def receivedOf (log : Log) : Bytes :=
  log.flatMap fun e =>
    match e.2 with
    | .received bytes => bytes
    | _ => []

@[simp] theorem receivedOf_append (log log' : Log) :
    receivedOf (log ++ log') = receivedOf log ++ receivedOf log' := List.flatMap_append

/-- A request session is still asked, or it has answered what it has received. -/
inductive Exchange (P : Pages → Prop) (s : Session) : Prop
  | asking (hresponding : s.responding = false) (hrequest : s.request = receivedOf s.log)
      (hnone : ∀ pages, answer pages s.request = none) (hlog : enqueuedOf s.log = []) : Exchange P s
  | replied {pages : Pages} {response : Buffer} (hp : P pages) (hresponding : s.responding = true)
      (hanswer : answer pages (receivedOf s.log) = some response)
      (hlog : enqueuedOf s.log = [response]) : Exchange P s

theorem Exchange.mono {P Q : Pages → Prop} {s : Session} (h : Exchange P s) (hPQ : ∀ p, P p → Q p) :
    Exchange Q s := by
  cases h with
  | asking hresponding hrequest hnone hlog => exact .asking hresponding hrequest hnone hlog
  | replied hp hresponding hanswer hlog => exact .replied (hPQ _ hp) hresponding hanswer hlog

theorem receivedOf_enqueue (m : Meter) (s : Session) (b : Buffer) :
    receivedOf (m.enqueue s b).2.1.log = receivedOf s.log := by
  rcases Meter.enqueue_cases m s b with ⟨_, he⟩ | ⟨_, he⟩
  · rw [he]
    simp [Session.refused, receivedOf]
  · rw [he]
    simp [Session.pushed, receivedOf]

namespace Meter

variable {P : Pages → Prop} {m : Meter} {s : Session}

/-- Read answers all that has been received, or goes on asking. -/
theorem exchange_read {pages : Pages} (hp : P pages) (tries : Nat) (recvs : List RecvResult)
    (hresponding : s.responding = false) (hrequest : s.request = receivedOf s.log)
    (hnone : ∀ pages, answer pages s.request = none) (hlog : enqueuedOf s.log = []) :
    Exchange P (readLoop headerLimit (respond pages) tries recvs s m).2.1 := by
  have hsame : Exchange P s := .asking hresponding hrequest hnone hlog
  induction recvs generalizing tries s with
  | nil => cases tries <;> exact hsame
  | cons result results ih =>
      cases tries with
      | zero => exact hsame
      | succ tries =>
          match result with
          | .interrupted => exact ih tries hresponding hrequest hnone hlog hsame
          | .wouldBlock => exact hsame
          | .failed => exact hsame
          | .data [] => exact hsame
          | .data (c :: cs) =>
              -- The session behind the chunk, which may be answered.
              have hreceived : receivedOf (s.log ++ [(m.clock, .received ((c :: cs).take 2048))]) =
                  s.request ++ (c :: cs).take 2048 := by
                rw [receivedOf_append, ← hrequest]
                simp [receivedOf]
              have hsilent : enqueuedOf (s.log ++ [(m.clock, .received ((c :: cs).take 2048))]) = [] := by
                rw [enqueuedOf_append, hlog]
                rfl
              have hanswer := answer_eq pages (s.request ++ (c :: cs).take 2048)
              simp only [readLoop]
              rw [hanswer]
              split
              · rename_i hgrown
                have hgrown' : ∀ pages', answer pages' (s.request ++ (c :: cs).take 2048) = none :=
                  fun _ => answer_eq_none_iff.mpr (answer_eq_none_iff.mp hgrown)
                exact ih tries hresponding hreceived.symm hgrown' hsilent
                  (.asking hresponding hreceived.symm hgrown' hsilent)
              · rename_i response hgrown
                rw [if_neg (answer_ne_nil hgrown), answer_sequence hgrown]
                refine @Exchange.replied P _ _ response hp ?_ ?_ ?_
                · rw [enqueue_responding]
                · rw [receivedOf_enqueue, hreceived]
                  exact hgrown
                · rw [enqueuedOf_enqueue, hsilent]
                  rfl

/-- Write leaves what the session has been asked alone. -/
theorem write_request (token budget : Nat) (sends : List SendResult) :
    (writeLoop token budget sends s m).2.1.responding = s.responding ∧
      (writeLoop token budget sends s m).2.1.request = s.request ∧
      receivedOf (writeLoop token budget sends s m).2.1.log = receivedOf s.log := by
  induction sends generalizing budget s m with
  | nil => exact ⟨rfl, rfl, rfl⟩
  | cons result results ih =>
      simp only [writeLoop]
      split
      · exact ⟨rfl, rfl, rfl⟩
      · cases result with
        | interrupted => exact ih budget
        | wouldBlock => exact ⟨rfl, rfl, rfl⟩
        | failed => exact ⟨rfl, rfl, rfl⟩
        | accepted size elapsed =>
            simp only
            split
            · exact ⟨rfl, rfl, rfl⟩
            · split
              · exact ⟨rfl, rfl, rfl⟩
              · obtain ⟨hresponding, hrequest, hreceived⟩ := ih _
                refine ⟨hresponding, hrequest, hreceived.trans ?_⟩
                rw [receivedOf_append]
                exact List.append_nil _

theorem exchange_write (h : Exchange P s) (token budget : Nat) (sends : List SendResult) :
    Exchange P (writeLoop token budget sends s m).2.1 := by
  obtain ⟨hresponding, hrequest, hreceived⟩ := write_request (m := m) (s := s) token budget sends
  have hframes := write_frames (m := m) (s := s) token budget sends
  cases h with
  | asking hr hq hnone hlog =>
      exact .asking (hresponding.trans hr) (hrequest.trans (hq.trans hreceived.symm))
        (hrequest.symm ▸ hnone) (hframes.trans hlog)
  | replied hp hr hanswer hlog =>
      exact .replied hp (hresponding.trans hr) (hreceived.symm ▸ hanswer) (hframes.trans hlog)

theorem exchange_serve {pages : Pages} (hp : P pages) (token : Nat) (ready : Reactor.Ready)
    (recvs : List RecvResult) (sends : List SendResult) (h : Exchange P s) :
    Exchange P (serve headerLimit (respond pages) token ready recvs sends s m).2.1 := by
  simp only [serve]
  generalize hread : (if (!ready.error && !s.streaming && !s.responding &&
    (ready.input || ready.readHup || ready.hup)) = true then
      readLoop headerLimit (respond pages) 8 recvs s m else (!ready.error, s, m)) = read
  have hr : Exchange P read.2.1 := by
    rw [← hread]
    split
    · rename_i hc
      simp only [Bool.and_eq_true, Bool.not_eq_true'] at hc
      cases h with
      | asking hresponding hrequest hnone hlog =>
          exact exchange_read hp 8 recvs hresponding hrequest hnone hlog
      | replied _ hresponding => exact absurd (hc.1.2.symm.trans hresponding) (by simp)
    · exact h
  split
  · exact exchange_write hr token kWriteBudget sends
  · exact hr

end Meter

/-! ## The sessions of a run -/

namespace ServerApp

variable [LawfulDouble D] {launch : Launch} {s s' : ServerApp D} {P Q : Pages → Prop}

/-- Where the buffers of all sessions come from. -/
structure Traced (P : Pages → Prop) (s : ServerApp D) : Prop where
  streams : ∀ e ∈ s.reactor.sessions ++ s.reactor.closed, e.2.streaming = true →
    FramesOf s.published e.2.log
  exchanges : ∀ e ∈ s.reactor.sessions ++ s.reactor.closed, e.2.streaming = false → Exchange P e.2

omit [LawfulDouble D] in
theorem Traced.mono (h : Traced P s) (hPQ : ∀ p, P p → Q p) (hr : s'.reactor = s.reactor)
    (hsub : ∀ g ∈ s.published, g ∈ s'.published) : Traced Q s' :=
  ⟨fun e he hs => (h.streams e (hr ▸ he) hs).mono hsub, fun e he hs =>
    (h.exchanges e (hr ▸ he) hs).mono hPQ⟩

/-- A session after a step of the reactor. -/
theorem descends_traced {event : Server.Event}
    (hpublishing : Publishing launch s) (hchronicle : s.reactor.Chronicle) (h : Traced P s)
    (hPQ : ∀ p, P p → Q p) (hpages : ∀ readings, Q (s.pages launch readings))
    (hroute : ∀ token ready recvs sends limit route,
      event = .session token ready recvs sends limit route →
        limit = headerLimit ∧ ∃ readings, route = respond (s.pages launch readings))
    {e : Nat × Session}
    (hd : Descends (s.latest.map Generation.transported) event s.reactor e) :
    (e.2.streaming = true → FramesOf s.published e.2.log) ∧
      (e.2.streaming = false → Exchange Q e.2) := by
  have hold : ∀ x, x ∈ s.reactor.sessions →
      (x.2.streaming = true → FramesOf s.published x.2.log) ∧
        (x.2.streaming = false → Exchange Q x.2) := fun x hx =>
    ⟨h.streams x (List.mem_append_left _ hx), fun hs =>
      (h.exchanges x (List.mem_append_left _ hx) hs).mono hPQ⟩
  have hstart : ∀ fd streaming, enqueuedOf (s.reactor.fresh fd streaming).log = [] := fun _ _ => rfl
  cases hd with
  | kept hm => exact hold _ hm
  | @fed token x m published hm hs _ hp =>
      obtain ⟨g, hg, rfl⟩ := Option.map_eq_some_iff.mp hp
      have hstream := (Meter.enqueue_same m x g.transported.frame).1.streaming.trans hs
      refine ⟨fun _ => ((hold _ hm).1 hs).enqueue m (hpublishing.mem_published hg), fun hf => ?_⟩
      exact absurd (hf.symm.trans hstream) (by simp)
  | @served token x ready recvs sends limit route hm he =>
      obtain ⟨rfl, readings, rfl⟩ := hroute token ready recvs sends limit route he
      have hsame := (Meter.serve_leaves headerLimit (respond (s.pages launch readings)) token ready
        recvs sends (hchronicle.live _ hm)).2.2.same.streaming
      refine ⟨fun hs => ?_, fun hs => ?_⟩
      · have hx := hsame.symm.trans hs
        obtain ⟨gs, hlog, hgs⟩ := (hold _ hm).1 hx
        exact ⟨gs, (Meter.serve_frames _ _ token ready recvs sends hx).trans hlog, hgs⟩
      · exact Meter.exchange_serve (hpages readings) token ready recvs sends
          ((hold _ hm).2 (hsame.symm.trans hs))
  | @joined fd streaming =>
      refine ⟨fun _ => ⟨[], hstart fd streaming, List.forall_mem_nil _⟩, fun _ => ?_⟩
      exact .asking rfl rfl (fun _ => answer_eq_none_iff.mpr ⟨Nat.zero_le _, by simp [Reactor.fresh]⟩)
        (hstart fd streaming)
  | @greeted fd published _ hp =>
      obtain ⟨g, hg, rfl⟩ := Option.map_eq_some_iff.mp hp
      have hstream := (Meter.enqueue_same s.reactor.toMeter (s.reactor.fresh fd true)
        g.transported.frame).1.streaming
      refine ⟨fun _ => ?_, fun hf => ?_⟩
      · have hempty : FramesOf s.published (s.reactor.fresh fd true).log :=
          ⟨[], hstart fd true, List.forall_mem_nil _⟩
        exact hempty.enqueue s.reactor.toMeter (hpublishing.mem_published hg)
      · exact absurd (hf.symm.trans hstream) (by simp [Reactor.fresh])

theorem traced_changes (hc : Changes launch s s') (hpublishing : Publishing launch s)
    (haccounts : s.reactor.Accounts launch.config) (hchronicle : s.reactor.Chronicle)
    (h : Traced P s) (hPQ : ∀ p, P p → Q p) (hpages : ∀ readings, Q (s.pages launch readings)) :
    Traced Q s' := by
  cases hc with
  | stored => exact h.mono hPQ rfl fun g hg => List.mem_append_left _ hg
  | unpublished => exact h.mono hPQ rfl fun _ hg => hg
  | notified => exact h.mono hPQ rfl fun _ hg => hg
  | advanced => exact h.mono hPQ rfl fun _ hg => hg
  | @acted event reactor eventfd ha hstep hroute =>
      have hlineage := Lineage.of_acts ha haccounts
      have hall : ∀ e ∈ reactor.sessions ++ reactor.closed,
          (e.2.streaming = true → FramesOf s.published e.2.log) ∧
            (e.2.streaming = false → Exchange Q e.2) := by
        have hdescends := fun e => descends_traced (e := e) hpublishing hchronicle h hPQ hpages hroute
        intro e he
        rcases List.mem_append.mp he with he | he
        · exact hdescends e (hlineage.live e he)
        · rcases hlineage.closed e he with he | he
          · exact ⟨h.streams e (List.mem_append_right _ he), fun hs =>
              (h.exchanges e (List.mem_append_right _ he) hs).mono hPQ⟩
          · exact hdescends e he
      exact ⟨fun e he => (hall e he).1, fun e he => (hall e he).2⟩

variable {next : TimePoint} {httpListener streamListener signalFd notificationFd timer : Nat}
  {es : List (Event D)}

/-- Pages that Route reads in a state of the run. -/
def PagesOf (launch : Launch) (s₀ : ServerApp D) (es : List (Event D)) (pages : Pages) : Prop :=
  ∃ es' s readings, es' <+: es ∧ Run (Where (Step launch) Unwrapped) s₀ es' s ∧
    pages = s.pages launch readings

theorem traced_run
    (hr : Run (Where (Step launch) Unwrapped)
      (init next httpListener streamListener signalFd notificationFd timer) es s) :
    Traced (PagesOf launch (init next httpListener streamListener signalFd notificationFd timer) es)
      s := by
  induction hr with
  | nil => exact ⟨List.forall_mem_nil _, List.forall_mem_nil _⟩
  | @snoc es s event s' hrun hstep ih =>
      obtain ⟨ds, hsystem⟩ := system_run hrun
      have hbooks := System.books_run hsystem
      refine traced_changes (step_changes hstep.2) (publishing_run hrun) hbooks.accounts
        hbooks.chronicle ih ?_ ?_
      · rintro pages ⟨es', t, readings, hbegins, ht, hpages⟩
        exact ⟨es', t, readings, hbegins.trans (List.prefix_append _ _), ht, hpages⟩
      · exact fun readings => ⟨es, s, readings, List.prefix_append _ _, hrun, rfl⟩

end ServerApp

/-! ## Bytes -/

theorem Generation.front (g : Generation D) : frontFrame g.val.frame = .item g.val.json [] := by
  obtain ⟨header, hframe, hlength, hnumber⟩ := frame_spec g.validLength
  have hwhole := Option.some.inj (g.framed.symm.trans hframe)
  have htake : g.val.frame.take 4 = header := by rw [hwhole, ← hlength, List.take_left]
  have hdrop : g.val.frame.drop 4 = g.val.json := by rw [hwhole, ← hlength, List.drop_left]
  have htotal := g.length_frame
  rw [frontFrame, htake, hdrop, hnumber, if_neg (by omega), if_neg (not_not.mpr g.validLength),
    if_neg (by omega), List.take_length, List.drop_length]

/-- What a subscriber reads are the documents of generations. -/
theorem delivered_frames {published : List (Generation D)} {log : Log} (hf : FramesOf published log)
    (hd : Delivers log) :
    ∃ (gs : List (Generation D)) (part : Bytes),
      cut frontFrame (sentOf log) = (gs.map fun g => g.val.json, some part) ∧
      (∀ g ∈ gs, g ∈ published) ∧ (gs.map Generation.sequence).Sublist (numbersOf log) := by
  obtain ⟨all, hall, hmem⟩ := hf
  obtain ⟨whole, part, hsent, hpart⟩ := hd
  rw [hall] at hpart
  have hnumbers : numbersOf log = all.map Generation.sequence := by
    rw [numbersOf, hall, List.filterMap_map]
    exact congrFun List.filterMap_eq_map all
  -- The buffers sent in full are frames, and the rest is the beginning of a frame.
  obtain ⟨gs, hsub, rfl, hfront⟩ : ∃ gs : List (Generation D), gs.Sublist all ∧
      whole = gs.map Generation.buffer ∧ frontFrame part = .more := by
    rcases hpart with ⟨rfl, hwhole⟩ | ⟨b, hbegins, hne, hwhole⟩
    · obtain ⟨gs, hsub, rfl⟩ := List.sublist_map_iff.mp hwhole
      exact ⟨gs, hsub, rfl, rfl⟩
    · obtain ⟨more, hsub, hmore⟩ := List.sublist_map_iff.mp hwhole
      obtain ⟨gs, last, rfl, rfl, hlast⟩ := List.append_eq_map_iff.mp hmore
      obtain ⟨g, rfl, rfl⟩ := List.map_eq_singleton_iff.mp hlast
      exact ⟨gs, (List.sublist_append_left _ _).trans hsub, rfl,
        selfDelimiting_frontFrame.front_beginning g.front hbegins hne⟩
  refine ⟨gs, part, ?_, fun g hg => hmem g (hsub.subset hg), ?_⟩
  · rw [hsent, List.flatMap_map]
    exact selfDelimiting_frontFrame.cut_whole Generation.front gs hfront
  · rw [hnumbers]
    exact hsub.map _

/-- Generations in the order of their numbers are in the order of their publication. -/
theorem sublist_published {published gs : List (Generation D)}
    (hpublished : (published.map Generation.sequence).Pairwise (· < ·))
    (hgs : (gs.map Generation.sequence).Pairwise (· < ·)) (hmem : ∀ g ∈ gs, g ∈ published) :
    gs.Sublist published := by
  have : Std.Antisymm fun g g' : Generation D => g.sequence < g'.sequence :=
    ⟨fun _ _ h h' => absurd (h.trans h') (lt_irrefl _)⟩
  rw [List.pairwise_map] at hpublished hgs
  refine List.sublist_of_subperm_of_pairwise (List.subperm_of_subset ?_ hmem) hgs hpublished
  exact hgs.imp fun h he => absurd (he ▸ h) (lt_irrefl _)

/-- The documents that a subscriber reads behind the first. -/
theorem tail_sublist {published gs : List (Generation D)}
    (hpublished : (published.map Generation.sequence).Pairwise (· < ·))
    (hgs : (gs.map Generation.sequence).tail.Pairwise (· < ·)) (hmem : ∀ g ∈ gs, g ∈ published) :
    gs.tail.Sublist published := by
  rw [← List.map_tail] at hgs
  exact sublist_published hpublished hgs fun g hg => hmem g (List.mem_of_mem_tail hg)

/-- What was sent of at most one answer. -/
theorem sent_of_answer {log : Log} (hd : Delivers log) :
    (enqueuedOf log = [] → sentOf log = []) ∧
      ∀ b, enqueuedOf log = [b] → sentOf log <+: b.bytes := by
  obtain ⟨whole, part, hsent, hpart⟩ := hd
  constructor
  · intro hnone
    rw [hnone] at hpart
    rcases hpart with ⟨rfl, hwhole⟩ | ⟨b, -, -, hwhole⟩
    · rw [hsent, List.sublist_nil.mp hwhole]
      rfl
    · exact absurd (List.sublist_nil.mp hwhole) (by simp)
  · intro b hone
    rw [hone] at hpart
    rcases hpart with ⟨rfl, hwhole⟩ | ⟨b', hbegins, -, hwhole⟩
    · rcases List.sublist_singleton.mp hwhole with rfl | rfl
      · rw [hsent]
        exact List.nil_prefix
      · rw [hsent]
        simp
    · rcases List.sublist_singleton.mp hwhole with hnil | hlast
      · exact absurd hnil (by simp)
      · obtain ⟨rfl, hb⟩ := List.append_eq_singleton_iff.mp hlast |>.resolve_right (by simp)
        obtain rfl := List.singleton_inj.mp hb
        rw [hsent]
        exact hbegins

/-! ## Every session of every run -/

namespace ServerApp

variable [LawfulDouble D] {launch : Launch} {s s' : ServerApp D} {next : Collectors.TimePoint}
  {httpListener streamListener signalFd notificationFd timer : Nat} {es : List (Event D)}

/-- Generations are never taken back. -/
theorem published_grows (hr : Run (Step launch) s es s') : s.published <+: s'.published := by
  induction hr with
  | nil => exact List.prefix_refl _
  | snoc _ hstep ih =>
      refine ih.trans ?_
      cases step_changes hstep with
      | stored => exact List.prefix_append _ _
      | _ => exact List.prefix_refl _

/-- The latest generation of any state of a run is one of the generations of the run. -/
theorem latest_mem
    (hr : Run (Step launch) (init next httpListener streamListener signalFd notificationFd timer) es s)
    {es' : List (Event D)} (hbegins : es' <+: es)
    (hr' : Run (Where (Step launch) Unwrapped)
      (init next httpListener streamListener signalFd notificationFd timer) es' s')
    {g : Generation D} (hg : s'.latest = some g) : g ∈ s.published := by
  obtain ⟨es'', rfl⟩ := hbegins
  have hwhole := follow_of_run hr
  rw [follow_append, follow_of_run hr'.of_where, Option.bind_some] at hwhole
  exact (published_grows (run_of_follow hwhole)).subset ((publishing_run hr').mem_published hg)

/-- What a subscriber has been sent, with the order of what it reads. -/
theorem streams_run
    (hr : Run (Where (Step launch) Unwrapped)
      (init next httpListener streamListener signalFd notificationFd timer) es s)
    {e : Nat × Session} (he : e ∈ s.reactor.sessions ++ s.reactor.closed)
    (hstream : e.2.streaming = true) :
    ∃ (gs : List (Generation D)) (part : Bytes),
      cut frontFrame (sentOf e.2.log) = (gs.map fun g => g.val.json, some part) ∧
      (∀ g ∈ gs, g ∈ s.published) ∧
      Numbered s.toSystem.latestSequence (gs.map Generation.sequence) := by
  obtain ⟨ds, hsystem⟩ := system_run hr
  have hdelivering := System.delivering_run hsystem
  obtain ⟨gs, part, hcut, hmem, hsub⟩ :=
    delivered_frames ((traced_run hr).streams e he hstream) (hdelivering.delivers e he)
  have hnumbered : Numbered s.toSystem.latestSequence (numbersOf e.2.log) := by
    rcases List.mem_append.mp he with he | he
    · exact (hdelivering.live e he hstream).numbered
    · exact hdelivering.past e he hstream
  exact ⟨gs, part, hcut, hmem, hnumbered.sublist hsub⟩

/-- In every run, whatever a subscriber has been sent is read as the documents of published
generations, whole and in the order of their numbers, and the beginning of one more. Behind the first
none comes twice. -/
theorem streams_traced
    (hr : Run (Step launch) (init next httpListener streamListener signalFd notificationFd timer) es s)
    (hes : es.length < 2 ^ 64) {e : Nat × Session}
    (he : e ∈ s.reactor.sessions ++ s.reactor.closed) (hstream : e.2.streaming = true) :
    ∃ (gs : List (Generation D)) (part : Bytes),
      cut frontFrame (sentOf e.2.log) = (gs.map fun g => g.val.json, some part) ∧
      (gs.map Generation.sequence).Pairwise (· ≤ ·) ∧ gs.tail.Sublist s.published ∧
      ∀ g ∈ gs, g ∈ s.published := by
  have hw := unwrapped_run hr hes
  obtain ⟨gs, part, hcut, hmem, hnumbers⟩ := streams_run hw he hstream
  exact ⟨gs, part, hcut, hnumbers.sorted,
    tail_sublist (publishing_run hw).increasing hnumbers.increasing hmem, hmem⟩

/-- The subscriber takes the rest of the first generation and seven bytes of a second, and a request
session takes twenty bytes of its answer. -/
def served : List (Event Integral) :=
  greeted ++ [.session 16 { output := true } [] [.accepted 100000 0] System.quiet,
    publishes, .notify, .notification,
    .session 16 { output := true } [] [.accepted 7 0] System.quiet,
    .accept false (.descriptor 10),
    .session 17 { input := true } [.data (lit "GET /metrics HTTP/1.1\r\nHost: a\r\n\r\n")] []
      System.quiet,
    .session 17 { output := true } [] [.accepted 20 0] System.quiet]

/-- What the sessions of that run have been sent. -/
theorem follow_served : ∃ s x y, follow (step local_) start served = some s ∧
    s.reactor.sessions = [(16, x), (17, y)] ∧
    x.streaming = true ∧ (cut frontFrame (sentOf x.log)).1.length = 1 ∧
    y.streaming = false ∧ (sentOf y.log).length = 20 := by
  have hsome : ((follow (step local_) start served).map fun s => s.reactor.sessions.map fun e =>
      (e.1, e.2.streaming, (cut frontFrame (sentOf e.2.log)).1.length, (sentOf e.2.log).length)) =
      some [(16, true, 1, 1345), (17, false, 0, 20)] := by decide +kernel
  obtain ⟨s, hs, hsessions⟩ := Option.map_eq_some_iff.mp hsome
  obtain ⟨⟨n, x⟩, l, hl, hx, hrest⟩ := List.map_eq_cons_iff.mp hsessions
  obtain ⟨⟨n', y⟩, l', rfl, hy, hnil⟩ := List.map_eq_cons_iff.mp hrest
  obtain rfl := List.map_eq_nil_iff.mp hnil
  simp only [Prod.mk.injEq] at hx hy
  obtain ⟨rfl, hxs, hxc, -⟩ := hx
  obtain ⟨rfl, hys, -, hyl⟩ := hy
  exact ⟨s, x, y, hs, hl, hxs, hxc, hys, hyl⟩

theorem streams_traced_served : ∃ s x, follow (step local_) start served = some s ∧
    (16, x) ∈ s.reactor.sessions ∧ ∃ (g : Generation Integral) (part : Bytes), g ∈ s.published ∧
      cut frontFrame (sentOf x.log) = ([g.val.json], some part) := by
  obtain ⟨s, x, y, hf, hsessions, hstream, hlength, -⟩ := follow_served
  have hx : (16, x) ∈ s.reactor.sessions := by simp [hsessions]
  obtain ⟨gs, part, hcut, -, -, hmem⟩ := streams_traced (run_of_follow hf) (by decide)
    (List.mem_append_left _ hx) hstream
  rw [hcut, List.length_map] at hlength
  obtain ⟨g, rfl⟩ := List.length_eq_one_iff.mp hlength
  exact ⟨s, x, hf, hx, g, part, hmem g List.mem_cons_self, hcut⟩

/-- What a request session has been sent. -/
theorem answers_run
    (hr : Run (Where (Step launch) Unwrapped)
      (init next httpListener streamListener signalFd notificationFd timer) es s)
    {e : Nat × Session} (he : e ∈ s.reactor.sessions ++ s.reactor.closed)
    (hrequest : e.2.streaming = false) :
    (sentOf e.2.log = [] ∧ ∀ pages, answer pages (receivedOf e.2.log) = none) ∨
      ∃ es' t readings response, es' <+: es ∧
        Run (Where (Step launch) Unwrapped)
          (init next httpListener streamListener signalFd notificationFd timer) es' t ∧
        answer (t.pages launch readings) (receivedOf e.2.log) = some response ∧
        sentOf e.2.log <+: response.bytes := by
  obtain ⟨ds, hsystem⟩ := system_run hr
  obtain ⟨hempty, hone⟩ := sent_of_answer ((System.delivering_run hsystem).delivers e he)
  cases (traced_run hr).exchanges e he hrequest with
  | asking hresponding hreq hnone hlog => exact .inl ⟨hempty hlog, hreq ▸ hnone⟩
  | @replied pages response hp hresponding hanswer hlog =>
      obtain ⟨es', t, readings, hbegins, ht, rfl⟩ := hp
      exact .inr ⟨es', t, readings, response, hbegins, ht, hanswer, hone response hlog⟩

/-- In every run, a request session has been sent the beginning of one answer at most: that of Route
to everything the session has received, in a state of the run, with a generation of the run. -/
theorem answers_traced
    (hr : Run (Step launch) (init next httpListener streamListener signalFd notificationFd timer) es s)
    (hes : es.length < 2 ^ 64) {e : Nat × Session}
    (he : e ∈ s.reactor.sessions ++ s.reactor.closed) (hrequest : e.2.streaming = false) :
    (sentOf e.2.log = [] ∧ ∀ pages, answer pages (receivedOf e.2.log) = none) ∨
      ∃ es' t readings response, es' <+: es ∧
        Run (Step launch) (init next httpListener streamListener signalFd notificationFd timer) es' t ∧
        (∀ g, t.latest = some g → g ∈ s.published) ∧
        answer (t.pages launch readings) (receivedOf e.2.log) = some response ∧
        sentOf e.2.log <+: response.bytes := by
  have hw := unwrapped_run hr hes
  refine (answers_run hw he hrequest).imp_right ?_
  rintro ⟨es', t, readings, response, hbegins, ht, hanswer⟩
  exact ⟨es', t, readings, response, hbegins, ht.of_where, fun g hg => latest_mem hr hbegins ht hg,
    hanswer⟩

theorem answers_traced_served : ∃ s y, follow (step local_) start served = some s ∧
    (17, y) ∈ s.reactor.sessions ∧ ∃ (t : ServerApp Integral) (readings : Readings) (response : Buffer),
      answer (t.pages local_ readings) (receivedOf y.log) = some response ∧
      (sentOf y.log).length = 20 ∧ sentOf y.log <+: response.bytes := by
  obtain ⟨s, x, y, hf, hsessions, -, -, hrequest, hlength⟩ := follow_served
  have hy : (17, y) ∈ s.reactor.sessions := by simp [hsessions]
  rcases answers_traced (run_of_follow hf) (by decide) (List.mem_append_left _ hy) hrequest with
    ⟨hnone, -⟩ | ⟨_, t, readings, response, -, -, -, hanswer, hsent⟩
  · rw [hnone] at hlength
    cases hlength
  · exact ⟨s, y, hf, hy, t, readings, response, hanswer, hlength, hsent⟩

end ServerApp
end WebHtop.Server
