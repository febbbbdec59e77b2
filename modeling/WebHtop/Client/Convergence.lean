import WebHtop.Client.Subscription
import WebHtop.Server.Convergence

/-!
# The client catches up

A client that has received all that a quiet server has sent to its subscriber holds the latest
generation, whatever it has received before and on however many connections.
-/

namespace WebHtop.Client

open WebHtop.Lib WebHtop.Common WebHtop.Server

variable {D : Type}

/-! ## The screen follows -/

namespace ClientApp

variable [Arithmetic D] {a a' : ClientApp D}

/-- What is visible is what is current, unless the view is frozen. -/
def Follows (a : ClientApp D) : Prop := a.view.paused = false → a.visible = a.current

theorem accept_follows {snapshot : SystemSnapshot D} {now : Int} {written : Bool}
    (h : a.accept snapshot now written = some a') : a'.Follows := by
  obtain ⟨a₁, hwrite, h⟩ := Option.bind_eq_some_iff.mp h
  obtain ⟨a₂, hprint, h⟩ := Option.bind_eq_some_iff.mp h
  obtain rfl := Option.some.inj h
  have hshow : ∀ b : ClientApp D, b.current = some snapshot → (show_ b snapshot).Follows := by
    intro b hcurrent hpaused
    unfold show_ at hpaused ⊢
    split at hpaused
    · rename_i hfrozen
      exact absurd (hfrozen.symm.trans hpaused) (by simp)
    · rename_i hfrozen
      rw [if_neg hfrozen]
      exact hcurrent.symm
  have hfinal := hshow { a₂ with current := some snapshot, last := now } rfl
  split <;> exact hfinal

theorem receive_follows {snapshot : SystemSnapshot D} {now : Int} {written : Bool}
    (h : a.receive snapshot now written = some a') (hf : a.Follows) : a'.Follows := by
  unfold receive at h
  split at h
  · exact Option.some.inj h ▸ hf
  · split at h
    · split at h
      · obtain rfl := Option.some.inj h
        exact hf
      · exact accept_follows h
    · exact accept_follows h

omit [Arithmetic D] in
theorem command_follows (key : UInt8) (hf : a.Follows) (hvisible : a.current = none → a.visible = none) :
    (a.command key).Follows := by
  by_cases hspace : key = ch ' '
  · subst hspace
    intro hpaused
    have hwas : a.view.paused = true := by
      have htoggled : (a.command (ch ' ')).view.paused = !a.view.paused := rfl
      rw [htoggled] at hpaused
      simpa using hpaused
    have hshown : (a.command (ch ' ')).visible =
        if a.view.paused = true ∧ a.current.isSome = true then a.current else a.visible := rfl
    have hcurrent : (a.command (ch ' ')).current = a.current := rfl
    rw [hshown, hcurrent]
    split
    · rfl
    · rename_i hnone
      have hempty : a.current = none := by
        rw [← Option.not_isSome_iff_eq_none]
        exact fun hsome => hnone ⟨hwas, hsome⟩
      rw [hempty]
      exact hvisible hempty
  · have hscreen := command_screen (c := a) hspace
    intro hpaused
    rw [hscreen.visible, (command_untouched a key).current]
    exact hf (hscreen.paused.symm.trans hpaused)

theorem step_follows {event : Event D} {recording : Bool} (h : a.step event = some a')
    (haccounted : Accounted recording a) (hs : Shown a) (hf : a.Follows) : a'.Follows := by
  cases event with
  | received snapshot now written => exact receive_follows h hf
  | replayed line now written =>
      simp only [step, replayLine] at h
      split at h
      · cases h
      · split at h
        · cases h
        · exact receive_follows h hf
  | replayFinished => exact Option.some.inj h ▸ hf
  | key key =>
      obtain rfl := Option.some.inj h
      unfold pressKey
      split
      · intro hpaused
        have hpaused' : (a.editFilter key).view.paused = a.view.paused := by
          unfold editFilter
          simp only
          split_ifs <;> rfl
        exact hf (hpaused'.symm.trans hpaused)
      · refine command_follows key hf fun hnone => ?_
        rw [haccounted.current, Option.map_eq_none_iff, List.getLast?_eq_none_iff] at hnone
        cases hv : a.visible with
        | none => rfl
        | some v =>
            obtain ⟨r, hr, -⟩ := hs v hv
            rw [hnone] at hr
            cases hr
  | draw reported now =>
      obtain rfl := Option.some.inj h
      have hscreen := draw_screen a reported now
      intro hpaused
      rw [hscreen.visible, (draw_untouched a reported now).current]
      exact hf (hscreen.paused.symm.trans hpaused)

theorem run_follows {interactive recording replay : Bool} {events : List (Event D)}
    (h : follow step (start false interactive recording replay) events = some a) : a.Follows := by
  have hrun := run_of_follow h
  clear h
  induction hrun with
  | nil => exact fun _ => rfl
  | snoc hrun hstep ih =>
      exact step_follows hstep (run_history (follow_of_run hrun)).accounted
        (run_shown (follow_of_run hrun)) ih

end ClientApp

/-! ## The latest generation -/

section

variable [Double D]

/-- A connection that has received everything has read the latest generation last. -/
theorem latest_read {gs : List (Generation D)} {g : Generation D} {x : Connection D} {seen : Bytes}
    (hx : StreamConnection.Faithful x seen) (hcut : (cut frontFrame x.received).1 = gs.map fun g => g.val.json)
    (hlast : gs.getLast? = some g) : ∃ v, x.handed.getLast? = some v ∧ Reads g v := by
  have haccepted := hx.accepted
  rw [hcut] at haccepted
  have hread := takeOk_all haccepted
  rw [hx.handed, snapshots, hcut]
  rw [List.forall₂_map_left_iff, ← List.forall₂_reverse_iff] at hread
  rw [List.getLast?_eq_head?_reverse] at hlast ⊢
  obtain ⟨rest, hrest⟩ := List.head?_eq_some_iff.mp hlast
  rw [hrest] at hread
  obtain ⟨v, vs, hv, -, hvs⟩ := List.forall₂_cons_left_iff.mp hread
  exact ⟨v, by rw [hvs, List.head?_cons], hv⟩

end

section

variable [Arithmetic D] [LawfulDouble D] [PlainNotation D]
  {launch : Launch} {s : ServerApp D} {next : Collectors.TimePoint}
  {httpListener streamListener signalFd notificationFd timer : Nat} {es : List (ServerApp.Event D)}
  {addresses : List Address} {c₀ c : StreamConnection D} {events : List StreamConnection.Event}
  {h : History D} {interactive recording replay : Bool} {inputs : List (Event D)} {a : ClientApp D}

omit [Arithmetic D] [LawfulDouble D] [PlainNotation D] in
/-- The last record of a stretch is not above the last one accepted. -/
theorem le_last_accepted {log : List (Receipt D)}
    (hrising : Succession.Rising Receipt.sequence Receipt.accepted log) {r : Receipt D}
    (hr : log.getLast? = some r) :
    ∃ r', (accepted log).getLast? = some r' ∧ r.sequence ≤ r'.sequence := by
  obtain ⟨before, rfl⟩ := List.getLast?_eq_some_iff.mp hr
  cases hkept : r.accepted with
  | true =>
      refine ⟨r, ?_, le_refl _⟩
      rw [accepted, List.filter_append, List.filter_singleton, hkept]
      exact List.getLast?_concat
  | false =>
      obtain ⟨r', hr', hle⟩ := (hrising.dropped before r [] rfl).mp hkept
      refine ⟨r', ?_, hle⟩
      rw [accepted, List.filter_append, List.filter_singleton, hkept]
      exact (congrArg List.getLast? (List.append_nil _)).trans hr'

/-- When the server is quiet and the queue of the subscriber is empty, a client that has received
what the subscriber was sent holds the latest generation, and shows it unless the view is frozen. -/
theorem converges
    (hr : Run (ServerApp.Step launch)
      (ServerApp.init next httpListener streamListener signalFd notificationFd timer) es s)
    (hes : es.length < 2 ^ 64) (hi : StreamConnection.init addresses = some c₀)
    (hc : follow StreamConnection.step c₀ events = some c) (hh : History.ofLog c.log = some h)
    (hwired : Wired s h)
    (ha : follow ClientApp.step (ClientApp.start false interactive recording replay) inputs = some a)
    (hinputs : inputs.filterMap ClientApp.handed = c.handed) (hquiet : s.Quiet) {e : Nat × Session}
    (he : e ∈ s.reactor.sessions) (hstream : e.2.streaming = true)
    (hempty : e.2.output.empty = true) {x : Connection D} (hcurrent : h.current = some x)
    (hwhole : x.received = sentOf e.2.log) {g : Generation D} (hlatest : s.latest = some g) :
    ∃ v, a.current = some v ∧ v.Equal g.val.snapshot.repaired ∧
      (a.view.paused = false → a.visible = some v) := by
  have hw := ServerApp.unwrapped_run hr hes
  have hpublishing := ServerApp.publishing_run hw
  have hhistory := ClientApp.run_history ha
  have hlog := hhistory.handed.trans hinputs
  have hsource := receipts_published hr hes hi hc hh hwired hlog
  have htells := tells_run hi hc hh
  -- The last snapshot handed on is the latest generation.
  obtain ⟨y, seen, hy, hfaithful, -⟩ := htells.present.resolve_left fun hidle => by
    rw [hcurrent] at hidle
    exact nomatch hidle.2
  obtain rfl := Option.some.inj (hcurrent.symm.trans hy)
  obtain ⟨gs, hcut, hlast, -⟩ := ServerApp.drained_run hw hquiet he hstream hempty
  rw [← hwhole] at hcut
  obtain ⟨v₀, hv₀, hreads⟩ := latest_read hfaithful (congrArg Prod.fst hcut) (hlast.trans hlatest)
  have hhanded : c.handed = h.past.flatMap Connection.handed ++ x.handed := by
    have hall : c.handed = h.all.flatMap Connection.handed :=
      (StreamConnection.handed_ofLog htells.log).symm
    rw [hall, History.all, hcurrent, List.flatMap_append]
    exact congrArg (_ ++ ·) (List.append_nil _)
  have hreceived : (a.log.map Receipt.snapshot).getLast? = some v₀ := by
    have hne : x.handed ≠ [] := fun hnil => by
      rw [hnil] at hv₀
      cases hv₀
    rw [hlog, hhanded, List.getLast?_append_of_ne_nil _ hne, hv₀]
  rw [List.getLast?_map] at hreceived
  obtain ⟨r₀, hr₀, rfl⟩ := Option.map_eq_some_iff.mp hreceived
  -- It was accepted, or one that is not older was.
  have hne : a.log ≠ [] := fun hnil => by
    rw [hnil] at hr₀
    cases hr₀
  have hrising := hhistory.accounted.rising a.log (by simp [one_stretch hpublishing hsource hne])
  obtain ⟨r, hr, hle⟩ := le_last_accepted hrising hr₀
  have hmem := (List.mem_filter.mp (List.mem_of_getLast? hr)).1
  obtain ⟨g', hg', hreads'⟩ := hsource r hmem
  have hsame : g' = g := by
    refine hpublishing.unique hg' (hpublishing.mem_published hlatest)
      (le_antisymm (hpublishing.le_latest hg' hlatest) ?_)
    have h₀ : r₀.sequence = g.sequence := hreads.telemetry.1
    have h₁ : r.sequence = g'.sequence := hreads'.telemetry.1
    omega
  have hheld : a.current = some r.snapshot := by
    rw [hhistory.accounted.current, hr]
    rfl
  exact ⟨r.snapshot, hheld, hsame ▸ hreads'.equal,
    fun hpaused => (ClientApp.run_follows ha hpaused).trans hheld⟩

/-- The reactor reads the eventfd, and the subscriber takes all that is queued. -/
def settled : List (ServerApp.Event Integral) :=
  ServerApp.greeted ++ [.notification,
    .session 16 { output := true } [] [.accepted 100000 0, .accepted 100000 0] System.quiet]

theorem converges_settled : ∃ s c a v, ∃ g : Generation Integral,
    follow (ServerApp.step ServerApp.local_) ServerApp.start settled = some s ∧
    follow StreamConnection.step watcher (watching (carried_ settled)) = some c ∧
    follow ClientApp.step (ClientApp.start false true false false)
      (c.handed.map fun snapshot => .received snapshot 0 true) = some a ∧
    s.latest = some g ∧ a.current = some v ∧ v.Equal g.val.snapshot.repaired := by
  have hserver : ((follow (ServerApp.step ServerApp.local_) ServerApp.start settled).map fun s =>
      (s.phase, s.eventfd == 0 && s.latest.isSome, s.reactor.sessions.map fun e =>
        (e.2.streaming && e.2.output.empty, sentOf e.2.log))) =
      some (.sampling, true, [(true, carried_ settled)]) := by decide +kernel
  obtain ⟨s, hs, hparts⟩ := Option.map_eq_some_iff.mp hserver
  simp only [Prod.mk.injEq, Bool.and_eq_true, beq_iff_eq] at hparts
  obtain ⟨hphase, ⟨hread, hlatest⟩, hsessions⟩ := hparts
  obtain ⟨g, hg⟩ := Option.isSome_iff_exists.mp hlatest
  obtain ⟨e, l, hl, hx, -⟩ := List.map_eq_cons_iff.mp hsessions
  simp only [Prod.mk.injEq, Bool.and_eq_true] at hx
  obtain ⟨⟨hstream, hempty⟩, hcarried⟩ := hx
  have he : e ∈ s.reactor.sessions := by simp [hl]
  have hclient : ((follow StreamConnection.step watcher (watching (carried_ settled))).map fun c =>
      ((History.ofLog c.log).map fun h => (h.past.length, h.current.map Connection.received),
        (follow ClientApp.step (ClientApp.start false true false false)
          (c.handed.map fun snapshot => .received snapshot 0 true)).isSome)) =
      some (some (0, some (carried_ settled)), true) := by decide +kernel
  obtain ⟨c, hc, hpair⟩ := Option.map_eq_some_iff.mp hclient
  rw [Prod.mk.injEq] at hpair
  obtain ⟨h, hh, hone⟩ := Option.map_eq_some_iff.mp hpair.1
  obtain ⟨a, ha⟩ := Option.isSome_iff_exists.mp hpair.2
  rw [Prod.mk.injEq, List.length_eq_zero_iff, Option.map_eq_some_iff] at hone
  obtain ⟨hpast, x, hcurrent, hreceived⟩ := hone
  have hwired : Wired s h := by
    intro z hz
    rw [History.all, hpast, hcurrent] at hz
    obtain rfl := List.mem_singleton.mp hz
    exact ⟨e, List.mem_append_left _ he, hstream, by rw [hreceived, hcarried]⟩
  have hinputs : (c.handed.map fun snapshot => Event.received snapshot 0 true).filterMap
      ClientApp.handed = c.handed := by
    rw [List.filterMap_map]
    exact List.filterMap_some
  obtain ⟨v, hv, hequal, -⟩ := converges (run_of_follow hs) (by decide)
    (show StreamConnection.init [⟨2, []⟩] = some watcher from rfl) hc hh hwired ha hinputs
    ⟨by simp [hphase], hread⟩ he hstream hempty hcurrent (hreceived.trans hcarried.symm) hg
  exact ⟨s, c, a, v, g, hs, hc, ha, hg, hv, hequal⟩

end

end WebHtop.Client
