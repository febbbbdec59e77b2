import WebHtop.Client.ClientApp

/-!
# The freeze

While the view is paused `receive` leaves the visible snapshot alone, and everything that is not on
the frozen screen advances as it would with the pause off. The three histories are emptied by the
first snapshot of another instance, pause or not.
-/

namespace WebHtop.Client

open WebHtop.Lib WebHtop.Common WebHtop.Client.Ui

variable {D : Type} [Arithmetic D]

namespace ClientApp

/-- What is plotted: CPU, memory and RX. -/
def histories (c : ClientApp D) : List D × List D × List D :=
  (c.view.cpuHistory, c.view.memoryHistory, c.view.rxHistory)

/-- The same state with the pause off. -/
def thaw (c : ClientApp D) : ClientApp D := { c with view := { c.view with paused := false } }

/-- All that is not on the frozen screen: the current snapshot, the recording, the output, the
account of the gaps and the rest of the view. -/
def acquired (c : ClientApp D) : ClientApp D :=
  { c with
    visible := none
    view :=
      { c.view with
        paused := false, snapshot := none, cpuHistory := [], memoryHistory := [], rxHistory := [] } }

/-- The key that clears the pause. -/
def Clears (c : ClientApp D) (event : Event D) : Prop :=
  event = .key (ch ' ') ∧ c.view.editingFilter = false

/-- A step of a freeze: the pause is on and stays on. -/
def Frozen (c : ClientApp D) (event : Event D) : Prop :=
  c.view.paused = true ∧ ¬ c.Clears event

/-- A snapshot that is handed over is ignored or of the current instance, unless nothing is
plotted. -/
def Continues (c : ClientApp D) (event : Event D) : Prop :=
  ∀ snapshot ∈ handed event, (c.once = true ∧ c.quit = true) ∨
    (∃ current ∈ c.current, current.telemetry.instanceId = snapshot.telemetry.instanceId) ∨
    c.histories = ([], [], [])

/-! ## The twin with the pause off -/

omit [Arithmetic D] in
theorem acquired_thaw (c : ClientApp D) : c.thaw.acquired = c.acquired := rfl

theorem writeRecord_acquired (c : ClientApp D) (snapshot : SystemSnapshot D) (written : Bool) :
    (c.writeRecord snapshot written).map acquired = c.acquired.writeRecord snapshot written := by
  unfold writeRecord
  have hrecord : c.acquired.record = c.record := rfl
  rw [hrecord]
  cases c.record with
  | none => rfl
  | some record =>
    cases line snapshot with
    | none => rfl
    | some text => cases written <;> rfl

theorem print_acquired (c : ClientApp D) (snapshot : SystemSnapshot D) :
    (c.print snapshot).map acquired = c.acquired.print snapshot := by
  unfold print
  have hwhen : (c.acquired.once || !c.acquired.interactive) = (c.once || !c.interactive) := rfl
  rw [hwhen]
  split
  · cases line snapshot <;> rfl
  · rfl

theorem show_acquired (c : ClientApp D) (snapshot : SystemSnapshot D) :
    (show_ c snapshot).acquired = c.acquired := by
  unfold show_
  split <;> rfl

/-- The end of `accept`. -/
theorem finish_acquired {a b : ClientApp D} (snapshot : SystemSnapshot D)
    (h : a.acquired = b.acquired) :
    (if (show_ a snapshot).once then { show_ a snapshot with quit := true }
      else show_ a snapshot).acquired =
    (if (show_ b snapshot).once then { show_ b snapshot with quit := true }
      else show_ b snapshot).acquired := by
  have hshow : (show_ a snapshot).acquired = (show_ b snapshot).acquired := by
    rw [show_acquired, show_acquired, h]
  generalize show_ a snapshot = a' at hshow ⊢
  generalize show_ b snapshot = b' at hshow ⊢
  have honce : a'.acquired.once = b'.acquired.once := congrArg ClientApp.once hshow
  have honce : a'.once = b'.once := honce
  rw [honce]
  split
  · have hquit (c : ClientApp D) :
        { c with quit := true }.acquired = { c.acquired with quit := true } := rfl
    rw [hquit, hquit, hshow]
  · exact hshow

/-- What is not on the frozen screen is computed from the same. -/
theorem accept_acquired (c : ClientApp D) (snapshot : SystemSnapshot D) (now : Int)
    (written : Bool) :
    (c.accept snapshot now written).map acquired =
      (c.acquired.accept snapshot now written).map acquired := by
  have hwrite := writeRecord_acquired c snapshot written
  unfold accept
  rw [← hwrite]
  cases c.writeRecord snapshot written with
  | none => rfl
  | some c₁ =>
    have hprint := print_acquired c₁ snapshot
    simp only [Option.bind_eq_bind, Option.bind_some, Option.map_some, ← hprint]
    cases c₁.print snapshot with
    | none => rfl
    | some c₂ => exact congrArg some (finish_acquired snapshot rfl)

theorem receive_acquired (c : ClientApp D) (snapshot : SystemSnapshot D) (now : Int)
    (written : Bool) :
    (c.receive snapshot now written).map acquired =
      (c.acquired.receive snapshot now written).map acquired := by
  unfold receive
  have hclosed : (c.acquired.once = true ∧ c.acquired.quit = true) ↔
      (c.once = true ∧ c.quit = true) := Iff.rfl
  have hcurrent : c.acquired.current = c.current := rfl
  simp only [hclosed, hcurrent]
  split
  · rfl
  split
  · split
    · rfl
    · rw [accept_acquired]
      conv_rhs => rw [accept_acquired]
      rfl
  · rw [accept_acquired]
    conv_rhs => rw [accept_acquired]
    rfl

theorem replayLine_acquired (c : ClientApp D) (line : Bytes) (now : Int) (written : Bool) :
    (c.replayLine line now written).map acquired =
      (c.acquired.replayLine line now written).map acquired := by
  unfold replayLine
  split
  · rfl
  cases decode (D := D) line with
  | error reason => rfl
  | ok snapshot => exact receive_acquired c snapshot now written

omit [Arithmetic D] in
theorem editFilter_acquired (c : ClientApp D) (key : UInt8) :
    (c.editFilter key).acquired = (c.acquired.editFilter key).acquired := by
  have hfilter : c.acquired.view.filter = c.view.filter := rfl
  simp only [editFilter, hfilter]
  split_ifs <;> rfl

omit [Arithmetic D] in
theorem acquired_ite {p : Prop} [Decidable p] {a b a' b' : ClientApp D}
    (ha : p → a.acquired = a'.acquired) (hb : b.acquired = b'.acquired) :
    (if p then a else b).acquired = (if p then a' else b').acquired := by
  split
  · rename_i hp
    exact ha hp
  · exact hb

omit [Arithmetic D] in
theorem command_acquired {c : ClientApp D} {key : UInt8} (h : key ≠ ch ' ') :
    (c.command key).acquired = (c.acquired.command key).acquired := by
  unfold command
  extract_lets v w
  iterate 3
    apply acquired_ite
    · exact fun _ => rfl
  apply acquired_ite
  · exact fun hspace => absurd hspace h
  iterate 8
    apply acquired_ite
    · exact fun _ => rfl
  rfl

omit [Arithmetic D] in
theorem pressKey_acquired {c : ClientApp D} {key : UInt8} (h : ¬ c.Clears (.key key)) :
    (c.pressKey key).acquired = (c.acquired.pressKey key).acquired := by
  have hediting : c.acquired.view.editingFilter = c.view.editingFilter := rfl
  unfold pressKey
  rw [hediting]
  split
  · exact editFilter_acquired c key
  · rename_i hcommand
    apply command_acquired
    rintro rfl
    exact h ⟨rfl, Bool.eq_false_iff.mpr hcommand⟩

theorem draw_acquired (c : ClientApp D) (reported : Reported D) (now : Int) :
    (c.draw reported now).acquired = (c.acquired.draw reported now).acquired := by
  have hreplay : c.acquired.replay = c.replay := rfl
  unfold draw
  rw [hreplay]
  cases reported.stream with
  | none => cases c.replay <;> rfl
  | some status => rfl

theorem step_acquired {c : ClientApp D} {event : Event D} (h : ¬ c.Clears event) :
    (c.step event).map acquired = (c.acquired.step event).map acquired := by
  cases event with
  | received snapshot now written => exact receive_acquired c snapshot now written
  | replayed line now written => exact replayLine_acquired c line now written
  | replayFinished => rfl
  | key key => exact congrArg some (pressKey_acquired h)
  | draw reported now => exact congrArg some (draw_acquired c reported now)

/-- A run and its twin agree on everything but the frozen screen, also about the next event. -/
theorem twin_step {c u : ClientApp D} {event : Event D} (h : u.acquired = c.acquired)
    (hevent : ¬ c.Clears event) : (u.step event).map acquired = (c.step event).map acquired := by
  have hediting : u.acquired.view.editingFilter = c.acquired.view.editingFilter := by rw [h]
  have hediting : u.view.editingFilter = c.view.editingFilter := hediting
  have hother : ¬ u.Clears event := by
    unfold Clears
    rw [hediting]
    exact hevent
  rw [step_acquired hother, step_acquired hevent, h]

theorem run_twin {c c' : ClientApp D} {events : List (Event D)}
    (h : Run (Where (StepsOf step) Frozen) c events c') :
    ∃ u, follow step c.thaw events = some u ∧ u.acquired = c'.acquired := by
  induction h with
  | nil => exact ⟨c.thaw, rfl, acquired_thaw c⟩
  | @snoc events t event t' _ hstep ih =>
    obtain ⟨u, hu, hacquired⟩ := ih
    obtain ⟨⟨-, hevent⟩, hstep⟩ := hstep
    have htwin := twin_step hacquired hevent
    rw [show t.step event = some t' from hstep] at htwin
    obtain ⟨u', hu', hacquired'⟩ := Option.map_eq_some_iff.mp htwin
    refine ⟨u', ?_, hacquired'⟩
    rw [follow_append, hu, Option.bind_some, follow, hu']
    rfl

/-! ## What the freeze holds -/

/-- What a step with the pause on does to the screen. -/
structure Held (c : ClientApp D) (continues : Prop) (c' : ClientApp D) : Prop where
  visible : c'.visible = c.visible
  paused : c'.view.paused = true
  kept : continues → c'.histories = c.histories
  emptied : ¬ continues → c'.histories = ([], [], [])

theorem accept_held {c c' : ClientApp D} {snapshot : SystemSnapshot D} {now : Int} {written : Bool}
    (hpaused : c.view.paused = true) (h : c.accept snapshot now written = some c') :
    c'.visible = c.visible ∧ c'.view = c.view := by
  obtain ⟨c₁, hwrite, h⟩ := Option.bind_eq_some_iff.mp h
  obtain ⟨c₂, hprint, h⟩ := Option.bind_eq_some_iff.mp h
  obtain ⟨-, hc₁⟩ := writeRecord_spec hwrite
  have hc₂ := print_spec hprint
  obtain rfl := Option.some.inj h
  rw [hc₂, hc₁, show_, if_pos hpaused]
  split <;> exact ⟨rfl, rfl⟩

theorem receive_held {c c' : ClientApp D} {snapshot : SystemSnapshot D} {now : Int}
    {written : Bool} (hpaused : c.view.paused = true)
    (h : c.receive snapshot now written = some c') :
    Held c ((c.once = true ∧ c.quit = true) ∨
      (∃ current ∈ c.current, current.telemetry.instanceId = snapshot.telemetry.instanceId) ∨
      c.histories = ([], [], [])) c' := by
  unfold receive at h
  split at h
  · rename_i hclosed
    obtain rfl := Option.some.inj h
    exact ⟨rfl, hpaused, fun _ => rfl, fun hother => absurd (.inl hclosed) hother⟩
  split at h
  · rename_i current hfilter
    obtain ⟨hmem, hinstance⟩ := Option.filter_eq_some_iff.mp hfilter
    have hsame : ∃ current ∈ c.current,
        current.telemetry.instanceId = snapshot.telemetry.instanceId :=
      ⟨current, hmem, by simpa using hinstance⟩
    split at h
    · obtain rfl := Option.some.inj h
      exact ⟨rfl, hpaused, fun _ => rfl, fun hother => absurd (.inr (.inl hsame)) hother⟩
    · obtain ⟨hvisible, hview⟩ := accept_held (by exact hpaused) h
      refine ⟨hvisible, hview ▸ hpaused, fun _ => ?_, fun hother => absurd (.inr (.inl hsame)) hother⟩
      rw [histories, hview]
      rfl
  · rename_i hclosed _ hfilter
    obtain ⟨hvisible, hview⟩ := accept_held (by exact hpaused) h
    have hempty : c'.histories = ([], [], []) := by
      rw [histories, hview]
    refine ⟨hvisible, hview ▸ hpaused, fun hcontinues => ?_, fun _ => hempty⟩
    rcases hcontinues with hclosed' | ⟨current, hmem, hinstance⟩ | hnothing
    · exact absurd hclosed' hclosed
    · have := Option.filter_eq_none_iff.mp hfilter current hmem
      exact absurd hinstance (by simpa using this)
    · rw [hempty, hnothing]

/-- An event that leaves the screen alone, pause and all. -/
structure SameScreen (c c' : ClientApp D) : Prop where
  visible : c'.visible = c.visible
  paused : c'.view.paused = c.view.paused
  histories : c'.histories = c.histories

omit [Arithmetic D] in
theorem SameScreen.ite {c a b : ClientApp D} {p : Prop} [Decidable p] (ha : p → SameScreen c a)
    (hb : SameScreen c b) : SameScreen c (if p then a else b) := by
  split
  · rename_i hp
    exact ha hp
  · exact hb

theorem SameScreen.held {c c' : ClientApp D} {event : Event D} (h : SameScreen c c')
    (hpaused : c.view.paused = true) (hevent : handed event = none) :
    Held c (Continues c event) c' := by
  refine ⟨h.visible, h.paused.trans hpaused, fun _ => h.histories, fun hother => absurd ?_ hother⟩
  intro snapshot hmem
  rw [hevent] at hmem
  cases hmem

omit [Arithmetic D] in
theorem command_screen {c : ClientApp D} {key : UInt8} (h : key ≠ ch ' ') :
    SameScreen c (c.command key) := by
  unfold command
  extract_lets v
  iterate 3
    apply SameScreen.ite
    · exact fun _ => ⟨rfl, rfl, rfl⟩
  apply SameScreen.ite
  · exact fun hspace => absurd hspace h
  iterate 8
    apply SameScreen.ite
    · exact fun _ => ⟨rfl, rfl, rfl⟩
  exact ⟨rfl, rfl, rfl⟩

omit [Arithmetic D] in
theorem pressKey_screen {c : ClientApp D} {key : UInt8} (h : ¬ c.Clears (.key key)) :
    SameScreen c (c.pressKey key) := by
  unfold pressKey
  split
  · unfold editFilter
    constructor
    · rfl
    · dsimp only
      split_ifs <;> rfl
    · unfold histories
      dsimp only
      split_ifs <;> rfl
  · rename_i hcommand
    apply command_screen
    rintro rfl
    exact h ⟨rfl, Bool.eq_false_iff.mpr hcommand⟩

theorem draw_screen (c : ClientApp D) (reported : Reported D) (now : Int) :
    SameScreen c (c.draw reported now) := by
  unfold draw
  cases reported.stream with
  | none => cases c.replay <;> exact ⟨rfl, rfl, rfl⟩
  | some status => exact ⟨rfl, rfl, rfl⟩

theorem step_held {c c' : ClientApp D} {event : Event D} (h : Frozen c event)
    (hstep : c.step event = some c') : Held c (Continues c event) c' := by
  obtain ⟨hpaused, hevent⟩ := h
  cases event with
  | received snapshot now written =>
    have hheld := receive_held hpaused hstep
    exact ⟨hheld.visible, hheld.paused, fun hc => hheld.kept (hc snapshot rfl),
      fun hother => hheld.emptied fun hc => hother fun s hs => Option.some.inj hs ▸ hc⟩
  | replayed line now written =>
    simp only [step, replayLine] at hstep
    split at hstep
    · cases hstep
    cases hdecode : decode (D := D) line with
    | error reason => simp [hdecode] at hstep
    | ok snapshot =>
      rw [hdecode] at hstep
      have hheld := receive_held hpaused hstep
      have hhanded : handed (.replayed line now written) = some snapshot := by
        simp [handed, hdecode, Except.toOption]
      refine ⟨hheld.visible, hheld.paused, fun hc => hheld.kept (hc snapshot hhanded), ?_⟩
      intro hother
      apply hheld.emptied
      intro hc
      apply hother
      intro s hs
      exact Option.some.inj (hhanded.symm.trans hs) ▸ hc
  | replayFinished =>
    obtain rfl := Option.some.inj hstep
    have hsame : SameScreen c c.finishReplay := ⟨rfl, rfl, rfl⟩
    exact hsame.held hpaused rfl
  | key key =>
    obtain rfl := Option.some.inj hstep
    exact (pressKey_screen hevent).held hpaused rfl
  | draw reported now =>
    obtain rfl := Option.some.inj hstep
    exact (draw_screen c reported now).held hpaused rfl

/-- What is plotted is what was plotted, or nothing. -/
theorem run_held {c c' : ClientApp D} {events : List (Event D)} (hpaused : c.view.paused = true)
    (h : Run (Where (StepsOf step) Frozen) c events c') :
    c'.visible = c.visible ∧ c'.view.paused = true ∧
      (c'.histories = c.histories ∨ c'.histories = ([], [], [])) := by
  refine h.invariant (I := fun a => a.visible = c.visible ∧ a.view.paused = true ∧
    (a.histories = c.histories ∨ a.histories = ([], [], []))) ⟨rfl, hpaused, Or.inl rfl⟩ ?_
  intro a event b ⟨hvisible, _, hhistories⟩ ⟨hfrozen, hstep⟩
  have hheld := step_held hfrozen hstep
  refine ⟨hheld.visible.trans hvisible, hheld.paused, ?_⟩
  by_cases hcontinues : Continues a event
  · rw [hheld.kept hcontinues]
    exact hhistories
  · exact Or.inr (hheld.emptied hcontinues)

/-- An emptied history stays empty, so the end of the freeze shows every step of it. -/
theorem run_histories {c c' : ClientApp D} {events : List (Event D)}
    (hpaused : c.view.paused = true) (h : Run (Where (StepsOf step) Frozen) c events c') :
    c'.histories = c.histories ↔ Run (Where (StepsOf step) Continues) c events c' := by
  induction h with
  | nil => exact ⟨fun _ => .nil, fun _ => rfl⟩
  | @snoc events t event t' hrun hlast ih =>
    have hheld := step_held hlast.1 hlast.2
    constructor
    · intro hsame
      obtain ⟨-, -, hor⟩ := run_held hpaused hrun
      have hcontinues : Continues t event := by
        by_contra hother
        have hempty : c.histories = ([], [], []) := hsame.symm.trans (hheld.emptied hother)
        have hempty : t.histories = ([], [], []) := by
          rcases hor with hor | hor
          · exact hor.trans hempty
          · exact hor
        exact hother fun _ _ => Or.inr (Or.inr hempty)
      have hfront := ih.mp ((hheld.kept hcontinues).symm.trans hsame)
      exact .snoc hfront ⟨hcontinues, hlast.2⟩
    · intro hall
      obtain ⟨m, hfront, hcontinues, hstep⟩ := hall.snoc_inv
      obtain rfl : m = t := hfront.of_where.unique hrun.of_where
      exact (hheld.kept hcontinues).trans (ih.mpr hfront)

/-- During a freeze the visible snapshot stays, and all that is not on the frozen screen, the
current snapshot and the recording among it, is as in the run with the pause off, which throws
where this one does. The histories stay exactly when every snapshot that is handed over continues
the current instance. -/
theorem freeze_holds {c c' : ClientApp D} {events : List (Event D)}
    (hpaused : c.view.paused = true) (h : Run (Where (StepsOf step) Frozen) c events c') :
    c'.view.paused = true ∧ c'.visible = c.visible ∧
      (c'.histories = c.histories ↔ Run (Where (StepsOf step) Continues) c events c') ∧
      ∃ u, follow step c.thaw events = some u ∧ u.current = c'.current ∧ u.record = c'.record ∧
        u.acquired = c'.acquired ∧
        ∀ event, Frozen c' event → (u.step event).map acquired = (c'.step event).map acquired := by
  obtain ⟨hvisible, hpaused', -⟩ := run_held hpaused h
  refine ⟨hpaused', hvisible, run_histories hpaused h, ?_⟩
  obtain ⟨u, hu, hacquired⟩ := run_twin h
  have hcurrent : u.acquired.current = c'.acquired.current := by rw [hacquired]
  have hrecord : u.acquired.record = c'.acquired.record := by rw [hacquired]
  exact ⟨u, hu, hcurrent, hrecord, hacquired, fun event hevent => twin_step hacquired hevent.2⟩

theorem frozen_received {c c' : ClientApp D} {snapshot : SystemSnapshot D} {now : Int}
    {written : Bool} (hpaused : c.view.paused = true)
    (h : c.receive snapshot now written = some c') :
    Run (Where (StepsOf step) Frozen) c [.received snapshot now written] c' := by
  refine .single ⟨⟨hpaused, fun hclears => ?_⟩, h⟩
  cases hclears.1

theorem continues_received {c c' : ClientApp D} {snapshot : SystemSnapshot D} {now : Int}
    {written : Bool} (hcurrent : c.current.map (fun current => current.telemetry.instanceId) =
      some snapshot.telemetry.instanceId)
    (h : c.receive snapshot now written = some c') :
    Run (Where (StepsOf step) Continues) c [.received snapshot now written] c' := by
  refine .single ⟨fun s hs => ?_, h⟩
  obtain rfl := Option.some.inj hs
  exact Or.inr (Or.inl (Option.map_eq_some_iff.mp hcurrent))

theorem follow_received (c : ClientApp D) {snapshot : SystemSnapshot D}
    (h : (encode snapshot).isSome) (now : Int) :
    ∃ c', c.receive snapshot now true = some c' ∧
      follow step c [.received snapshot now true] = some c' := by
  obtain ⟨c', hc'⟩ := Option.isSome_iff_exists.mp (receive_isSome (c := c) h (fun _ => rfl) now)
  exact ⟨c', hc', congrArg (Option.bind · some) hc'⟩

/-- Space, and a later snapshot of the instance. -/
theorem freeze_holds_instance :
    let before : List (Event ℚ) := [.received (numbered "a" 3) 0 true, .key (ch ' ')]
    let freeze : List (Event ℚ) := [.received (numbered "a" 7) 1 true]
    ∃ c c' u, follow step (start false true true false) before = some c ∧
      follow step c freeze = some c' ∧ c'.visible = c.visible ∧ c'.histories = c.histories ∧
      follow step c.thaw freeze = some u ∧ u.current = c'.current ∧ u.record = c'.record := by
  intro before freeze
  have hsome : (follow step (start false true true false) before).isSome = true := rfl
  obtain ⟨c, hc⟩ := Option.isSome_iff_exists.mp hsome
  have hpaused : (follow step (start false true true false) before).map
      (fun c => c.view.paused) = some true := rfl
  have hcurrent : (follow step (start false true true false) before).map (fun c =>
      c.current.map fun current => current.telemetry.instanceId) = some (some (lit "a")) := rfl
  rw [hc] at hpaused hcurrent
  have hencode : (encode (numbered "a" 7)).isSome := rfl
  obtain ⟨c', hreceive, hfreeze⟩ := follow_received c hencode 1
  have hheld := freeze_holds (Option.some.inj hpaused) (frozen_received (Option.some.inj hpaused) hreceive)
  obtain ⟨-, hvisible, hhistories, u, hu, hu', hrecord, -⟩ := hheld
  refine ⟨c, c', u, hc, hfreeze, hvisible, hhistories.mpr ?_, hu, hu', hrecord⟩
  exact continues_received (Option.some.inj hcurrent) hreceive

/-- A restart of the server while the view is paused: the plots are emptied. -/
theorem freeze_not_held :
    ¬ ∀ (before freeze : List (Event ℚ)) (c c' : ClientApp ℚ),
      follow step (start false true false false) before = some c → c.view.paused = true →
      Run (Where (StepsOf step) Frozen) c freeze c' →
        c'.visible = c.visible ∧ c'.histories = c.histories := by
  intro h
  have hsome : (follow step (start false true false false)
      [.received (numbered "a" 3) 0 true, .key (ch ' ')]).isSome = true := rfl
  obtain ⟨c, hc⟩ := Option.isSome_iff_exists.mp hsome
  have hpaused : (follow step (start false true false false)
      [.received (numbered "a" 3) 0 true, .key (ch ' ')]).map
        (fun c => c.view.paused) = some true := rfl
  have hplotted : (follow step (start false true false false)
      [.received (numbered "a" 3) 0 true, .key (ch ' ')]).map
        (fun c => c.view.cpuHistory.length) = some 1 := rfl
  have hemptied : (follow step (start false true false false)
      ([.received (numbered "a" 3) 0 true, .key (ch ' ')] ++
        [.received (numbered "b" 1) 1 true])).map
        (fun c => c.view.cpuHistory.length) = some 0 := rfl
  have hencode : (encode (numbered "b" 1)).isSome := rfl
  obtain ⟨c', hreceive, hfreeze⟩ := follow_received c hencode 1
  rw [follow_append, hc, Option.bind_some, hfreeze] at hemptied
  rw [hc] at hpaused hplotted
  have hpaused := Option.some.inj hpaused
  obtain ⟨-, hsame⟩ := h _ _ c c' hc hpaused (frozen_received hpaused hreceive)
  have hlength := congrArg List.length (Prod.mk.inj hsame).1
  exact absurd ((Option.some.inj hemptied).symm.trans (hlength.trans (Option.some.inj hplotted)))
    (by decide)

end ClientApp
end WebHtop.Client
