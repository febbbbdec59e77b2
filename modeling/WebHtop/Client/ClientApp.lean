import WebHtop.Client.Ui.Render
import WebHtop.Common.Protocol
import WebHtop.Lib.Runs
import WebHtop.Lib.Succession

/-!
# The client's main loop

`ClientApp::Run` of client/app/client_app.cpp as the events of its loop: a snapshot handed to
`receive`, a line of a replay, a key, a drawing. Readings of the clock, what the stream and the
probe report and whether a write succeeds are inputs; an exception ends the run. The loop ends
with `quit`; which events a list holds is not restricted. `log` is an observation that no function
reads.
-/

namespace WebHtop.Client

open WebHtop.Lib WebHtop.Common WebHtop.Client.Ui

variable {D : Type} [Arithmetic D]

/-- A call of `receive`: what is added to `sequence_gaps`, or none for a snapshot that is dropped. -/
structure Receipt (D : Type) where
  snapshot : SystemSnapshot D
  gap : Option UInt64

/-- The variables of Run. Time points are in nanoseconds; `record` is what this run has appended
to the recording, when one is open. -/
structure ClientApp (D : Type) where
  once : Bool
  interactive : Bool
  record : Option Bytes
  replay : Bool := false
  output : Bytes := []
  view : ViewState D
  current : Option (SystemSnapshot D) := none
  visible : Option (SystemSnapshot D) := none
  last : Int := 0
  previousFilter : Bytes := []
  quit : Bool := false
  log : List (Receipt D) := []

/-- What the stream and the probe report when the screen is drawn. -/
structure Reported (D : Type) where
  stream : Option (Bytes × UInt64 × UInt64)
  diagnostics : Option (JSONValue D)
  diagnosticsAge : D

inductive Event (D : Type) where
  | received (snapshot : SystemSnapshot D) (now : Int) (written : Bool)
  | replayed (line : Bytes) (now : Int) (written : Bool)
  | replayFinished
  | key (key : UInt8)
  | draw (reported : Reported D) (now : Int)

namespace ClientApp

/-- A deque of at most 120 entries. -/
def pushBack (history : List D) (n : D) : List D :=
  let history := history ++ [n]
  if history.length > 120 then history.tail else history

/-- A view before the first event. -/
def initialView (recording : Bool) : ViewState D :=
  { snapshot := none
    diagnostics := none
    cpuHistory := []
    memoryHistory := []
    rxHistory := []
    connection := []
    filter := []
    ageSeconds := real (-1)
    diagnosticsAge := real (-1)
    recording }

def start (once interactive recording replay : Bool) : ClientApp D :=
  { once, interactive, replay
    record := if recording then some [] else none
    view := initialView recording }

/-- `Encode(snapshot) << '\n'`. -/
def line (snapshot : SystemSnapshot D) : Option Bytes :=
  (encode snapshot).map fun text => text ++ [ch '\n']

/-- The write to the recording; `written` is the state of the stream behind the flush. -/
def writeRecord (c : ClientApp D) (snapshot : SystemSnapshot D) (written : Bool) :
    Option (ClientApp D) :=
  match c.record with
  | none => some c
  | some record =>
    match line snapshot with
    | none => none
    | some text => if written then some { c with record := some (record ++ text) } else none

def print (c : ClientApp D) (snapshot : SystemSnapshot D) : Option (ClientApp D) :=
  if c.once || !c.interactive then
    (line snapshot).map fun text => { c with output := c.output ++ text }
  else some c

/-- The view is brought up to date unless it is paused. -/
def show_ (c : ClientApp D) (snapshot : SystemSnapshot D) : ClientApp D :=
  if c.view.paused then c
  else
    { c with
      visible := some snapshot
      view :=
        { c.view with
          cpuHistory := pushBack c.view.cpuHistory snapshot.cpu.totalUsagePercent
          memoryHistory := pushBack c.view.memoryHistory snapshot.memory.usedPercent
          rxHistory :=
            pushBack c.view.rxHistory (Arithmetic.mul snapshot.network.rxKbps (real 1024)) } }

/-- The part of `receive` behind the comparison of sequences. -/
def accept (c : ClientApp D) (snapshot : SystemSnapshot D) (now : Int) (written : Bool) :
    Option (ClientApp D) := do
  let c ← c.writeRecord snapshot written
  let c ← c.print snapshot
  let c := show_ { c with current := some snapshot, last := now } snapshot
  return if c.once then { c with quit := true } else c

def receive (c : ClientApp D) (snapshot : SystemSnapshot D) (now : Int) (written : Bool) :
    Option (ClientApp D) :=
  if c.once ∧ c.quit then some c
  else
    match c.current.filter fun current =>
      current.telemetry.instanceId = snapshot.telemetry.instanceId with
    | some current =>
      if snapshot.telemetry.sequence ≤ current.telemetry.sequence then
        some { c with log := c.log ++ [⟨snapshot, none⟩] }
      else
        let gap := snapshot.telemetry.sequence - current.telemetry.sequence - 1
        accept
          { c with
            view := { c.view with sequenceGaps := c.view.sequenceGaps + gap }
            log := c.log ++ [⟨snapshot, some gap⟩] }
          snapshot now written
    | none =>
      accept
        { c with
          view := { c.view with cpuHistory := [], memoryHistory := [], rxHistory := [] }
          log := c.log ++ [⟨snapshot, some 0⟩] }
        snapshot now written

/-- A line that getline has read from the replay. -/
def replayLine (c : ClientApp D) (line : Bytes) (now : Int) (written : Bool) :
    Option (ClientApp D) :=
  if line.length > kMaxPayload then none
  else
    match decode line with
    | .error _ => none
    | .ok snapshot => c.receive snapshot now written

def finishReplay (c : ClientApp D) : ClientApp D :=
  { c with
    view := { c.view with connection := lit "replay finished" }
    replay := false
    quit := c.quit || !c.interactive }

/-- A key while the filter is edited. -/
def editFilter (c : ClientApp D) (key : UInt8) : ClientApp D :=
  let view :=
    if key = ch '\r' ∨ key = ch '\n' then { c.view with editingFilter := false }
    else if key = 27 then { c.view with filter := c.previousFilter, editingFilter := false }
    else if key = 127 ∨ key = 8 then { c.view with filter := c.view.filter.dropLast }
    else if 32 ≤ key ∧ key < 127 ∧ c.view.filter.length < 64 then
      { c.view with filter := c.view.filter ++ [key] }
    else c.view
  { c with view := { view with scroll := 0 } }

/-- A key otherwise. -/
def command (c : ClientApp D) (key : UInt8) : ClientApp D :=
  let v := c.view
  if key = ch 'q' then { c with quit := true }
  else if ch '1' ≤ key ∧ key ≤ ch '6' then
    { c with view := { v with page := (key - ch '0').toUInt32, scroll := 0 } }
  else if key = ch 'h' then { c with view := { v with help := !v.help } }
  else if key = ch ' ' then
    { c with
      view := { v with paused := !v.paused }
      visible := if v.paused ∧ c.current.isSome then c.current else c.visible }
  else if key = ch '/' then
    { c with previousFilter := v.filter, view := { v with editingFilter := true } }
  else if key = ch 'c' then { c with view := { v with sort := lit "cpu" } }
  else if key = ch 'm' then { c with view := { v with sort := lit "memory" } }
  else if key = ch 'p' then { c with view := { v with sort := lit "pid" } }
  else if key = ch 't' then { c with view := { v with sort := lit "threads" } }
  else if key = ch 'j' then { c with view := { v with scroll := v.scroll + 1 } }
  else if key = ch 'k' ∧ v.scroll ≠ 0 then { c with view := { v with scroll := v.scroll - 1 } }
  else if key = ch 'g' then { c with view := { v with scroll := 0 } }
  else c

def pressKey (c : ClientApp D) (key : UInt8) : ClientApp D :=
  if c.view.editingFilter then c.editFilter key else c.command key

/-- The view that `Draw` is called with. -/
def draw (c : ClientApp D) (reported : Reported D) (now : Int) : ClientApp D :=
  let view := { c.view with snapshot := c.visible }
  let view :=
    match reported.stream with
    | some (status, bytes, reconnects) =>
      { view with connection := status, bytesReceived := bytes, reconnects }
    | none =>
      if c.replay then { view with connection := lit "replaying recorded telemetry" } else view
  { c with
    view :=
      { view with
        ageSeconds :=
          if c.current.isSome then Arithmetic.div (real (now - c.last)) (real 1000000000)
          else real (-1)
        diagnostics := reported.diagnostics
        diagnosticsAge := reported.diagnosticsAge } }

def step (c : ClientApp D) : Event D → Option (ClientApp D)
  | .received snapshot now written => c.receive snapshot now written
  | .replayed line now written => c.replayLine line now written
  | .replayFinished => some c.finishReplay
  | .key key => some (c.pressKey key)
  | .draw reported now => some (c.draw reported now)

end ClientApp

/-! ## The account of a run -/

namespace Receipt

def instanceId (r : Receipt D) : Bytes := r.snapshot.telemetry.instanceId

def sequence (r : Receipt D) : Nat := r.snapshot.telemetry.sequence.toNat

def accepted (r : Receipt D) : Bool := r.gap.isSome

end Receipt

/-- The calls of `receive` that are not dropped. -/
def accepted (log : List (Receipt D)) : List (Receipt D) := log.filter Receipt.accepted

/-- The maximal runs of one server instance. -/
def runs (log : List (Receipt D)) : List (List (Receipt D)) :=
  Succession.stretches Receipt.instanceId log

/-- The lines of the snapshots, in order. -/
def Records (record : Bytes) (snapshots : List (SystemSnapshot D)) : Prop :=
  ∃ lines, List.Forall₂ (fun snapshot text => ClientApp.line snapshot = some text) snapshots lines ∧
    record = lines.flatten

/-- What a client knows after its calls of `receive`. -/
structure Accounted (recording : Bool) (c : ClientApp D) : Prop where
  rising : ∀ run ∈ runs c.log, Succession.Rising Receipt.sequence Receipt.accepted run
  current : c.current = ((accepted c.log).getLast?).map Receipt.snapshot
  recording : c.record.isSome = recording
  record : ∀ record ∈ c.record, Records record ((accepted c.log).map Receipt.snapshot)
  /-- Each difference of two sequences is that of the numbers. -/
  exact : ∀ before r after gap, c.log = before ++ r :: after → r.gap = some gap →
    ∀ last ∈ (accepted before).getLast?, last.instanceId = r.instanceId →
      last.sequence + 1 + gap.toNat = r.sequence
  gaps : c.view.sequenceGaps.toNat =
    Succession.totalMissing Receipt.instanceId Receipt.sequence Receipt.accepted c.log % 2 ^ 64

namespace ClientApp

/-! ## What a step does -/

/-- Nothing that the account speaks of has changed. -/
structure Untouched (c c' : ClientApp D) : Prop where
  once : c'.once = c.once
  current : c'.current = c.current
  record : c'.record = c.record
  gaps : c'.view.sequenceGaps = c.view.sequenceGaps
  log : c'.log = c.log

omit [Arithmetic D] in
theorem Untouched.ite {c a b : ClientApp D} {p : Prop} [Decidable p] (ha : Untouched c a)
    (hb : Untouched c b) : Untouched c (if p then a else b) := by
  split
  · exact ha
  · exact hb

omit [Arithmetic D] in
theorem finishReplay_untouched (c : ClientApp D) : Untouched c c.finishReplay :=
  ⟨rfl, rfl, rfl, rfl, rfl⟩

theorem draw_untouched (c : ClientApp D) (reported : Reported D) (now : Int) :
    Untouched c (c.draw reported now) := by
  have hgaps : (c.draw reported now).view.sequenceGaps = c.view.sequenceGaps := by
    unfold draw
    cases reported.stream with
    | none => cases c.replay <;> rfl
    | some status => rfl
  exact ⟨rfl, rfl, rfl, hgaps, rfl⟩

omit [Arithmetic D] in
theorem editFilter_untouched (c : ClientApp D) (key : UInt8) : Untouched c (c.editFilter key) := by
  have hgaps : (c.editFilter key).view.sequenceGaps = c.view.sequenceGaps := by
    simp only [editFilter]
    split_ifs <;> rfl
  exact ⟨rfl, rfl, rfl, hgaps, rfl⟩

omit [Arithmetic D] in
theorem command_untouched (c : ClientApp D) (key : UInt8) : Untouched c (c.command key) := by
  unfold command
  extract_lets v
  iterate 12
    apply Untouched.ite
    · exact ⟨rfl, rfl, rfl, rfl, rfl⟩
  exact ⟨rfl, rfl, rfl, rfl, rfl⟩

omit [Arithmetic D] in
theorem pressKey_untouched (c : ClientApp D) (key : UInt8) : Untouched c (c.pressKey key) :=
  Untouched.ite (editFilter_untouched c key) (command_untouched c key)

/-- The recording behind a write. -/
def Appended (record : Option Bytes) (snapshot : SystemSnapshot D) (record' : Option Bytes) : Prop :=
  (record = none ∧ record' = none) ∨
    ∃ old text, record = some old ∧ line snapshot = some text ∧ record' = some (old ++ text)

theorem writeRecord_spec {c c' : ClientApp D} {snapshot : SystemSnapshot D} {written : Bool}
    (h : c.writeRecord snapshot written = some c') :
    Appended c.record snapshot c'.record ∧ c' = { c with record := c'.record } := by
  unfold writeRecord at h
  cases hrecord : c.record with
  | none =>
    rw [hrecord] at h
    obtain rfl := Option.some.inj h
    exact ⟨Or.inl ⟨rfl, hrecord⟩, rfl⟩
  | some old =>
    rw [hrecord] at h
    cases hline : line snapshot with
    | none => simp [hline] at h
    | some text =>
      simp only [hline] at h
      split at h
      · obtain rfl := Option.some.inj h
        exact ⟨Or.inr ⟨old, text, rfl, hline, rfl⟩, rfl⟩
      · cases h

theorem print_spec {c c' : ClientApp D} {snapshot : SystemSnapshot D}
    (h : c.print snapshot = some c') : c' = { c with output := c'.output } := by
  unfold print at h
  split at h
  · obtain ⟨text, -, rfl⟩ := Option.map_eq_some_iff.mp h
    rfl
  · obtain rfl := Option.some.inj h
    rfl

theorem accept_spec {c c' : ClientApp D} {snapshot : SystemSnapshot D} {now : Int} {written : Bool}
    (h : c.accept snapshot now written = some c') :
    c'.once = c.once ∧ c'.current = some snapshot ∧ Appended c.record snapshot c'.record ∧
      c'.view.sequenceGaps = c.view.sequenceGaps ∧ c'.log = c.log := by
  obtain ⟨c₁, hwrite, h⟩ := Option.bind_eq_some_iff.mp h
  obtain ⟨c₂, hprint, h⟩ := Option.bind_eq_some_iff.mp h
  obtain ⟨hrecord, hc₁⟩ := writeRecord_spec hwrite
  have hc₂ := print_spec hprint
  obtain rfl := Option.some.inj h
  rw [hc₂, hc₁]
  unfold show_
  split_ifs <;> exact ⟨rfl, rfl, hrecord, rfl, rfl⟩

/-- A snapshot that is dropped changes the log only; one that is accepted is recorded and becomes
the current one, with the gap before it when it continues the run. -/
inductive Received (c : ClientApp D) (snapshot : SystemSnapshot D) (c' : ClientApp D) : Prop
  | dropped (current : SystemSnapshot D) (hcurrent : c.current = some current)
      (hinstance : current.telemetry.instanceId = snapshot.telemetry.instanceId)
      (hle : snapshot.telemetry.sequence.toNat ≤ current.telemetry.sequence.toNat)
      (heq : c' = { c with log := c.log ++ [⟨snapshot, none⟩] })
  | kept (gap : UInt64) (hlog : c'.log = c.log ++ [⟨snapshot, some gap⟩])
      (honce : c'.once = c.once) (hcurrent : c'.current = some snapshot)
      (hrecord : Appended c.record snapshot c'.record)
      (hgaps : c'.view.sequenceGaps = c.view.sequenceGaps + gap)
      (hgap : ∀ current ∈ c.current,
        current.telemetry.instanceId = snapshot.telemetry.instanceId →
          current.telemetry.sequence.toNat + 1 + gap.toNat = snapshot.telemetry.sequence.toNat)
      (hstart : (∀ current ∈ c.current,
        current.telemetry.instanceId ≠ snapshot.telemetry.instanceId) → gap = 0)

/-- `a - b - 1` for `b < a`. -/
theorem toNat_gap {a b : UInt64} (h : b.toNat < a.toNat) :
    b.toNat + 1 + (a - b - 1).toNat = a.toNat := by
  have hb := b.toNat_lt
  have ha := a.toNat_lt
  have hsub : (a - b).toNat = a.toNat - b.toNat :=
    UInt64.toNat_sub_of_le a b (UInt64.le_iff_toNat_le.mpr h.le)
  have hone : (a - b - 1).toNat = (a - b).toNat - 1 := by
    refine UInt64.toNat_sub_of_le (a - b) 1 (UInt64.le_iff_toNat_le.mpr ?_)
    rw [hsub]
    show 1 ≤ _
    omega
  omega

theorem receive_spec {c c' : ClientApp D} {snapshot : SystemSnapshot D} {now : Int}
    {written : Bool} (hopen : ¬ (c.once = true ∧ c.quit = true))
    (h : c.receive snapshot now written = some c') : Received c snapshot c' := by
  rw [receive, if_neg hopen] at h
  cases hfilter : c.current.filter fun current =>
      current.telemetry.instanceId = snapshot.telemetry.instanceId with
  | none =>
    simp only [hfilter] at h
    obtain ⟨honce', hcurrent, hrecord, hgaps, hlog⟩ := accept_spec h
    refine .kept 0 hlog honce' hcurrent hrecord ?_ ?_ fun _ => rfl
    · rw [hgaps]
      exact (UInt64.add_zero _).symm
    · intro current hmem hinstance
      have := Option.filter_eq_none_iff.mp hfilter current hmem
      exact absurd hinstance (by simpa using this)
  | some current =>
    obtain ⟨hmem, hinstance⟩ := Option.filter_eq_some_iff.mp hfilter
    have hinstance : current.telemetry.instanceId = snapshot.telemetry.instanceId := by
      simpa using hinstance
    simp only [hfilter] at h
    split at h
    · rename_i hle
      obtain rfl := Option.some.inj h
      exact .dropped current hmem hinstance (UInt64.le_iff_toNat_le.mp hle) rfl
    · rename_i hlt
      have hlt : current.telemetry.sequence.toNat < snapshot.telemetry.sequence.toNat :=
        not_le.mp fun hle => hlt (UInt64.le_iff_toNat_le.mpr hle)
      obtain ⟨honce', hcurrent, hrecord, hgaps, hlog⟩ := accept_spec h
      refine .kept _ hlog honce' hcurrent hrecord hgaps ?_ ?_
      · intro current' hmem' _
        obtain rfl := Option.mem_unique hmem' hmem
        exact toNat_gap hlt
      · exact fun hother => absurd hinstance (hother current hmem)

/-! ## Runs -/

theorem Untouched.accounted {c c' : ClientApp D} {recording : Bool} (hu : Untouched c c')
    (h : Accounted recording c) : Accounted recording c' where
  rising := by rw [hu.log]; exact h.rising
  current := by rw [hu.log, hu.current]; exact h.current
  recording := by rw [hu.record]; exact h.recording
  record := by rw [hu.log, hu.record]; exact h.record
  exact := by rw [hu.log]; exact h.exact
  gaps := by rw [hu.log, hu.gaps]; exact h.gaps

/-- A snapshot at the end of a list of records. -/
theorem records_snoc {record text : Bytes} {snapshots : List (SystemSnapshot D)}
    {snapshot : SystemSnapshot D} (h : Records record snapshots)
    (htext : line snapshot = some text) : Records (record ++ text) (snapshots ++ [snapshot]) := by
  obtain ⟨lines, hlines, rfl⟩ := h
  refine ⟨lines ++ [text], ?_, by simp⟩
  exact List.rel_append hlines (.cons htext .nil)

omit [Arithmetic D] in
/-- The receipts with an amount, and the last one as the log grows. -/
theorem snoc_exact {log : List (Receipt D)} {r : Receipt D}
    (h : ∀ before r after gap, log = before ++ r :: after → r.gap = some gap →
      ∀ last ∈ (accepted before).getLast?, last.instanceId = r.instanceId →
        last.sequence + 1 + gap.toNat = r.sequence)
    (hr : ∀ gap, r.gap = some gap → ∀ last ∈ (accepted log).getLast?,
      last.instanceId = r.instanceId → last.sequence + 1 + gap.toNat = r.sequence) :
    ∀ before r' after gap, log ++ [r] = before ++ r' :: after → r'.gap = some gap →
      ∀ last ∈ (accepted before).getLast?, last.instanceId = r'.instanceId →
        last.sequence + 1 + gap.toNat = r'.sequence := by
  intro before r' after gap heq
  rcases List.eq_nil_or_concat after with rfl | ⟨rest, x, rfl⟩
  · obtain ⟨rfl, hr'⟩ := List.append_inj' heq rfl
    obtain rfl : r = r' := by simpa using hr'
    exact hr gap
  · have hfront : log ++ [r] = (before ++ r' :: rest) ++ [x] := by simpa using heq
    exact h before r' rest gap (List.append_inj' hfront rfl).1

section

variable {c c' : ClientApp D} {snapshot current : SystemSnapshot D} {gap : UInt64} {recording : Bool}

omit [Arithmetic D] in
theorem accepted_dropped (log : List (Receipt D)) (snapshot : SystemSnapshot D) :
    accepted (log ++ [⟨snapshot, none⟩]) = accepted log := by
  simp [accepted, Receipt.accepted]

omit [Arithmetic D] in
theorem accepted_kept (log : List (Receipt D)) (snapshot : SystemSnapshot D) (gap : UInt64) :
    accepted (log ++ [⟨snapshot, some gap⟩]) = accepted log ++ [⟨snapshot, some gap⟩] := by
  simp [accepted, Receipt.accepted]

omit [Arithmetic D] in
theorem gap_dropped (log : List (Receipt D)) (snapshot : SystemSnapshot D) :
    Succession.gap Receipt.instanceId Receipt.sequence Receipt.accepted log ⟨snapshot, none⟩ = 0 := by
  unfold Succession.gap
  split
  · rfl
  · rfl

/-- A snapshot that is dropped adds nothing to the account. -/
theorem accounted_dropped (h : Accounted recording c) (hcurrent : c.current = some current)
    (hinstance : current.telemetry.instanceId = snapshot.telemetry.instanceId)
    (hle : snapshot.telemetry.sequence.toNat ≤ current.telemetry.sequence.toNat) :
    Accounted recording { c with log := c.log ++ [⟨snapshot, none⟩] } := by
  obtain ⟨last, hlast, rfl⟩ := Option.map_eq_some_iff.mp (h.current.symm.trans hcurrent)
  have hfollows : Succession.Follows Receipt.instanceId Receipt.sequence Receipt.accepted c.log
      ⟨snapshot, none⟩ := by
    constructor
    · intro hfalse
      cases hfalse
    · exact fun hall => absurd (hall last hlast hinstance) (not_lt.mpr hle)
  refine ⟨Succession.rising_snoc h.rising hfollows, ?_, h.recording, ?_, ?_, ?_⟩
  · rw [accepted_dropped]
    exact h.current
  · rw [accepted_dropped]
    exact h.record
  · exact snoc_exact h.exact fun gap hgap => by cases hgap
  · rw [Succession.totalMissing_snoc h.rising hfollows, gap_dropped]
    exact h.gaps

/-- The gap counts from the snapshot accepted last. -/
theorem last_gap (h : Accounted recording c)
    (hgap : ∀ current ∈ c.current, current.telemetry.instanceId = snapshot.telemetry.instanceId →
      current.telemetry.sequence.toNat + 1 + gap.toNat = snapshot.telemetry.sequence.toNat) :
    ∀ last ∈ (accepted c.log).getLast?, last.instanceId = snapshot.telemetry.instanceId →
      last.sequence + 1 + gap.toNat = snapshot.telemetry.sequence.toNat := by
  intro last hlast
  refine hgap last.snapshot ?_
  rw [h.current, hlast]
  rfl

/-- The numbers that are missing in front of an accepted snapshot. -/
theorem gap_kept (h : Accounted recording c)
    (hlast : ∀ last ∈ (accepted c.log).getLast?, last.instanceId = snapshot.telemetry.instanceId →
      last.sequence + 1 + gap.toNat = snapshot.telemetry.sequence.toNat)
    (hstart : (∀ current ∈ c.current,
      current.telemetry.instanceId ≠ snapshot.telemetry.instanceId) → gap = 0) :
    Succession.gap Receipt.instanceId Receipt.sequence Receipt.accepted c.log ⟨snapshot, some gap⟩ =
      gap.toNat := by
  unfold Succession.gap
  split
  · rename_i last hmem
    split
    · rename_i hkey
      have := hlast last hmem hkey.2
      show snapshot.telemetry.sequence.toNat - last.sequence - 1 = gap.toNat
      omega
    · rename_i hkey
      rw [hstart]
      · rfl
      · intro current hc
        rw [h.current, Option.mem_def, Option.map_eq_some_iff] at hc
        obtain ⟨last', hlast', rfl⟩ := hc
        obtain rfl := Option.mem_unique hlast' hmem
        exact fun hsame => hkey ⟨rfl, hsame⟩
  · rename_i hnone
    have hnone : c.current = none := by
      rw [h.current]
      exact Option.map_eq_none_iff.mpr hnone
    rw [hstart]
    · rfl
    · simp [hnone]

theorem Appended.isSome {record record' : Option Bytes} (h : Appended record snapshot record') :
    record'.isSome = record.isSome := by
  rcases h with ⟨hold, hnew⟩ | ⟨old, text, hold, -, hnew⟩
  · rw [hold, hnew]
  · rw [hold, hnew]
    rfl

theorem Appended.records {record record' : Option Bytes} {snapshots : List (SystemSnapshot D)}
    (h : Appended record snapshot record') (hr : ∀ text ∈ record, Records text snapshots) :
    ∀ text ∈ record', Records text (snapshots ++ [snapshot]) := by
  intro text hmem
  rcases h with ⟨-, hnew⟩ | ⟨old, line, hold, hline, hnew⟩
  · rw [hnew] at hmem
    cases hmem
  · obtain rfl := Option.mem_unique hmem hnew
    exact records_snoc (hr old hold) hline

theorem Received.accounted (hr : Received c snapshot c') (h : Accounted recording c) :
    Accounted recording c' := by
  cases hr with
  | dropped current hcurrent hinstance hle heq =>
    exact heq ▸ accounted_dropped h hcurrent hinstance hle
  | kept gap hlog honce hcurrent hrecord hgaps hgap hstart =>
    have hlast := last_gap h hgap
    have hfollows : Succession.Follows Receipt.instanceId Receipt.sequence Receipt.accepted c.log
        ⟨snapshot, some gap⟩ := by
      refine ⟨fun _ last hmem hkey => ?_, fun _ => rfl⟩
      have := hlast last hmem hkey
      show last.sequence < snapshot.telemetry.sequence.toNat
      omega
    refine ⟨?_, ?_, hrecord.isSome.trans h.recording, ?_, ?_, ?_⟩
    · rw [hlog]
      exact Succession.rising_snoc h.rising hfollows
    · rw [hlog, accepted_kept, hcurrent, List.getLast?_concat]
      rfl
    · rw [hlog, accepted_kept, List.map_append]
      exact hrecord.records h.record
    · rw [hlog]
      refine snoc_exact h.exact fun gap' hgap' => ?_
      obtain rfl := Option.some.inj hgap'
      exact hlast
    · rw [hlog, hgaps, Succession.totalMissing_snoc h.rising hfollows, gap_kept h hlast hstart,
        UInt64.toNat_add, h.gaps, Nat.mod_add_mod]

end

/-- The snapshot that an event hands to `receive`. -/
def handed : Event D → Option (SystemSnapshot D)
  | .received snapshot _ _ => some snapshot
  | .replayed line _ _ => (decode line).toOption
  | _ => none

/-- Nothing throws: writes succeed, the text of a snapshot exists and a replay is in order. -/
def Undisturbed : Event D → Prop
  | .received snapshot _ written => written = true ∧ (encode snapshot).isSome
  | .replayed line _ written => line.length ≤ kMaxPayload ∧ written = true ∧
      ∃ snapshot, decode (D := D) line = .ok snapshot ∧ (encode snapshot).isSome
  | _ => True

/-- The account with the list of the snapshots that were handed over. -/
structure History (recording : Bool) (events : List (Event D)) (c : ClientApp D) : Prop where
  once : c.once = false
  handed : c.log.map Receipt.snapshot = events.filterMap handed
  accounted : Accounted recording c

theorem receive_history {c c' : ClientApp D} {recording : Bool} {events : List (Event D)}
    {event : Event D} {snapshot : SystemSnapshot D} {now : Int} {written : Bool}
    (h : History recording events c) (hevent : ClientApp.handed event = some snapshot)
    (hreceive : c.receive snapshot now written = some c') :
    History recording (events ++ [event]) c' := by
  have hr := receive_spec (by simp [h.once]) hreceive
  have hhanded : (events ++ [event]).filterMap ClientApp.handed =
      c.log.map Receipt.snapshot ++ [snapshot] := by
    rw [List.filterMap_append, h.handed]
    simp [hevent]
  refine ⟨?_, ?_, hr.accounted h.accounted⟩
  · cases hr with
    | dropped current hcurrent hinstance hle heq => rw [heq]; exact h.once
    | kept gap hlog honce hcurrent hrecord hgaps hgap hstart => exact honce.trans h.once
  · rw [hhanded]
    cases hr with
    | dropped current hcurrent hinstance hle heq => simp [heq]
    | kept gap hlog honce hcurrent hrecord hgaps hgap hstart => simp [hlog]

theorem Untouched.history {c c' : ClientApp D} {recording : Bool} {events : List (Event D)}
    {event : Event D} (hu : Untouched c c') (h : History recording events c)
    (hevent : ClientApp.handed event = none) : History recording (events ++ [event]) c' := by
  refine ⟨hu.once.trans h.once, ?_, hu.accounted h.accounted⟩
  rw [hu.log, List.filterMap_append, h.handed]
  simp [hevent]

theorem step_history {c c' : ClientApp D} {recording : Bool} {events : List (Event D)}
    {event : Event D} (h : History recording events c) (hstep : c.step event = some c') :
    History recording (events ++ [event]) c' := by
  cases event with
  | received snapshot now written => exact receive_history h rfl hstep
  | replayed line now written =>
    simp only [step, replayLine] at hstep
    split at hstep
    · cases hstep
    · cases hdecode : decode (D := D) line with
      | error reason => simp [hdecode] at hstep
      | ok snapshot =>
        rw [hdecode] at hstep
        exact receive_history h (by simp [ClientApp.handed, hdecode, Except.toOption]) hstep
  | replayFinished =>
    obtain rfl := Option.some.inj hstep
    exact (finishReplay_untouched c).history h rfl
  | key key =>
    obtain rfl := Option.some.inj hstep
    exact (pressKey_untouched c key).history h rfl
  | draw reported now =>
    obtain rfl := Option.some.inj hstep
    exact (draw_untouched c reported now).history h rfl

theorem start_accounted (once interactive recording replay : Bool) :
    Accounted recording (start once interactive recording replay : ClientApp D) := by
  refine ⟨?_, rfl, ?_, ?_, ?_, rfl⟩
  · intro run hrun
    cases hrun
  · cases recording <;> rfl
  · intro record hrecord
    cases recording with
    | false => cases hrecord
    | true =>
      obtain rfl := Option.some.inj hrecord
      exact ⟨[], .nil, rfl⟩
  · intro before r after gap heq
    simp [start] at heq

theorem start_history (interactive recording replay : Bool) :
    History recording ([] : List (Event D)) (start false interactive recording replay) :=
  ⟨rfl, rfl, start_accounted false interactive recording replay⟩

theorem run_history {interactive recording replay : Bool} {events : List (Event D)}
    {c : ClientApp D}
    (h : follow step (start false interactive recording replay) events = some c) :
    History recording events c := by
  have hrun := run_of_follow h
  clear h
  induction hrun with
  | nil => exact start_history interactive recording replay
  | snoc _ hstep ih => exact step_history ih hstep

/-! ## Nothing throws -/

theorem accept_isSome {c : ClientApp D} {snapshot : SystemSnapshot D} {written : Bool}
    (h : (encode snapshot).isSome) (hwritten : c.record.isSome = true → written = true) (now : Int) :
    (c.accept snapshot now written).isSome := by
  obtain ⟨text, htext⟩ := Option.isSome_iff_exists.mp h
  have hline : line snapshot = some (text ++ [ch '\n']) := by rw [line, htext]; rfl
  have hwrite : ∃ c', c.writeRecord snapshot written = some c' := by
    unfold writeRecord
    cases hrecord : c.record with
    | none => exact ⟨_, rfl⟩
    | some old =>
      obtain rfl := hwritten (by rw [hrecord]; rfl)
      rw [hline]
      exact ⟨_, rfl⟩
  have hprint : ∀ c' : ClientApp D, ∃ c'', c'.print snapshot = some c'' := by
    intro c'
    unfold print
    split
    · rw [hline]
      exact ⟨_, rfl⟩
    · exact ⟨_, rfl⟩
  obtain ⟨c', hc'⟩ := hwrite
  obtain ⟨c'', hc''⟩ := hprint c'
  simp only [accept, hc', hc'', Option.bind_eq_bind, Option.bind_some]
  rfl

theorem receive_isSome {c : ClientApp D} {snapshot : SystemSnapshot D} {written : Bool}
    (h : (encode snapshot).isSome) (hwritten : c.record.isSome = true → written = true) (now : Int) :
    (c.receive snapshot now written).isSome := by
  unfold receive
  split
  · rfl
  · split
    · split
      · rfl
      · refine accept_isSome h ?_ now
        exact hwritten
    · refine accept_isSome h ?_ now
      exact hwritten

theorem step_isSome {event : Event D} (h : Undisturbed event) (c : ClientApp D) :
    (c.step event).isSome := by
  cases event with
  | received snapshot now written =>
    obtain ⟨rfl, hencode⟩ := h
    exact receive_isSome hencode (fun _ => rfl) now
  | replayed line now written =>
    obtain ⟨hlength, rfl, snapshot, hdecode, hencode⟩ := h
    simp only [step, replayLine, if_neg (not_lt.mpr hlength), hdecode]
    exact receive_isSome hencode (fun _ => rfl) now
  | replayFinished => rfl
  | key key => rfl
  | draw reported now => rfl

theorem follow_isSome {events : List (Event D)} (h : ∀ event ∈ events, Undisturbed event)
    (c : ClientApp D) : (follow step c events).isSome := by
  induction events generalizing c with
  | nil => rfl
  | cons event events ih =>
    obtain ⟨c', hc'⟩ := Option.isSome_iff_exists.mp (step_isSome (h event List.mem_cons_self) c)
    rw [follow, hc', Option.bind_some]
    exact ih (fun e he => h e (List.mem_cons_of_mem event he)) c'

/-- Whatever is handed over, with duplicates, reordered or from other instances: the account of a
run that is not ended by an exception, with no subtraction below zero; and nothing but an exception
ends a run. -/
theorem history_accounted (interactive recording replay : Bool) (events : List (Event D)) :
    (∀ c, follow step (start false interactive recording replay) events = some c →
      Accounted recording c ∧ c.log.map Receipt.snapshot = events.filterMap handed ∧
        ∀ run ∈ runs c.log, ∀ first ∈ (accepted run).head?, ∀ last ∈ (accepted run).getLast?,
          first.sequence ≤ last.sequence ∧
            (accepted run).length ≤ last.sequence - first.sequence + 1) ∧
      ((∀ event ∈ events, Undisturbed event) →
        (follow step (start false interactive recording replay) events).isSome) := by
  constructor
  · intro c h
    have hf := run_history h
    refine ⟨hf.accounted, hf.handed, fun run hrun first hfirst last hlast => ?_⟩
    exact Succession.length_le_of_rises (hf.accounted.rising run hrun).rises hfirst hlast
  · exact fun h => follow_isSome h _

/-- An empty snapshot of the instance with the sequence. -/
def numbered (instanceId : String) (sequence : UInt64) : SystemSnapshot ℚ :=
  { timestamp := 0
    cpu := default
    memory := default
    disk := default
    network := default
    loadavg := default
    process := default
    telemetry := { (default : TelemetryInfo ℚ) with instanceId := lit instanceId, sequence } }

/-- A duplicate, an old snapshot, a gap, a pause and two restarts. -/
theorem history_accounted_restarts :
    let events : List (Event ℚ) := [.received (numbered "a" 3) 0 true,
      .received (numbered "a" 3) 1 true, .key (ch ' '), .received (numbered "a" 7) 2 true,
      .received (numbered "a" 5) 3 true, .received (numbered "b" 9) 4 true,
      .received (numbered "a" 1) 5 true, .received (numbered "a" 4) 6 true]
    ∃ c, follow step (start false true true false) events = some c ∧ Accounted true c ∧
      c.view.sequenceGaps = 5 ∧
        (runs c.log).map (fun run => (accepted run).map Receipt.sequence) = [[3, 7], [9], [1, 4]] := by
  intro events
  have h := history_accounted true true false events
  have hencode : ∀ event ∈ events, Undisturbed event := by
    simp only [events, List.forall_mem_cons]
    exact ⟨⟨rfl, rfl⟩, ⟨rfl, rfl⟩, trivial, ⟨rfl, rfl⟩, ⟨rfl, rfl⟩, ⟨rfl, rfl⟩, ⟨rfl, rfl⟩, ⟨rfl, rfl⟩,
      List.forall_mem_nil _⟩
  obtain ⟨c, hc⟩ := Option.isSome_iff_exists.mp (h.2 hencode)
  have hgaps : (follow step (start false true true false) events).map
      (fun c => c.view.sequenceGaps) = some 5 := rfl
  have hruns : (follow step (start false true true false) events).map
      (fun c => (runs c.log).map fun run => (accepted run).map Receipt.sequence) =
        some [[3, 7], [9], [1, 4]] := rfl
  rw [hc] at hgaps hruns
  exact ⟨c, hc, (h.1 c hc).1, Option.some.inj hgaps, Option.some.inj hruns⟩

end ClientApp
end WebHtop.Client
