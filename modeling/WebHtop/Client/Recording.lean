import WebHtop.Client.ClientApp
import WebHtop.Common.Reread
import WebHtop.Lib.Istream

/-!
# Recordings

What a run with --record has written is read line by line by a run with --replay. Every snapshot
that was recorded is accepted again, and as an equal one, exactly when each of them is replayable.
-/

namespace WebHtop.Client

open WebHtop.Lib WebHtop.Lib.Json WebHtop.Common

variable {D : Type} [Arithmetic D]

/-- The snapshots that a run has accepted, and recorded when a recording is open. -/
def ClientApp.snapshots (c : ClientApp D) : List (SystemSnapshot D) :=
  (accepted c.log).map Receipt.snapshot

/-- What `receive` compares. -/
def Fresh (a b : Bytes × Nat) : Prop := a.1 = b.1 → a.2 < b.2

def identity (s : SystemSnapshot D) : Bytes × Nat :=
  (s.telemetry.instanceId, s.telemetry.sequence.toNat)

/-- Each snapshot follows the one before it, so that `receive` does not drop it. -/
def Successive (snapshots : List (SystemSnapshot D)) : Prop :=
  (snapshots.map identity).IsChain Fresh

namespace ClientApp

/-! ## The recording -/

omit [Arithmetic D] in
theorem successive_of_exact {log : List (Receipt D)}
    (h : ∀ before r after gap, log = before ++ r :: after → r.gap = some gap →
      ∀ last ∈ (accepted before).getLast?, last.instanceId = r.instanceId →
        last.sequence + 1 + gap.toNat = r.sequence) :
    Successive ((accepted log).map Receipt.snapshot) := by
  unfold Successive
  induction log using List.reverseRecOn with
  | nil => exact .nil
  | append_singleton log r ih =>
    have hfront := ih fun before r' after gap heq =>
      h before r' (after ++ [r]) gap (by rw [heq, List.append_assoc, List.cons_append])
    cases hgap : r.gap with
    | none =>
      have hsame : accepted (log ++ [r]) = accepted log := by
        simp [accepted, Receipt.accepted, hgap]
      rw [hsame]
      exact hfront
    | some gap =>
      have hmore : accepted (log ++ [r]) = accepted log ++ [r] := by
        simp [accepted, Receipt.accepted, hgap]
      rw [hmore, List.map_append, List.map_append]
      refine List.isChain_append.mpr ⟨hfront, .singleton _, ?_⟩
      intro x hx y hy hxy
      obtain rfl := Option.some.inj hy
      rw [List.getLast?_map, List.getLast?_map] at hx
      obtain ⟨s, hs, rfl⟩ := Option.map_eq_some_iff.mp hx
      obtain ⟨last, hlast, rfl⟩ := Option.map_eq_some_iff.mp hs
      have := h log r [] gap rfl hgap last hlast hxy
      show last.sequence < r.sequence
      omega

/-- Every snapshot that is handed over has been decoded. -/
def Decodes : Event D → Prop
  | .received snapshot _ _ => ∃ payload, decode payload = .ok snapshot
  | _ => True

structure Recorded (c : ClientApp D) : Prop where
  accounted : Accounted true c
  decoded : ∀ r ∈ c.log, ∃ payload, decode payload = .ok r.snapshot

theorem receive_recorded {c c' : ClientApp D} {snapshot : SystemSnapshot D} {now : Int}
    {written : Bool} (h : Recorded c) (hs : ∃ payload, decode payload = .ok snapshot)
    (hreceive : c.receive snapshot now written = some c') : Recorded c' := by
  by_cases hopen : c.once = true ∧ c.quit = true
  · rw [receive, if_pos hopen] at hreceive
    exact Option.some.inj hreceive ▸ h
  · have hr := receive_spec hopen hreceive
    have hlog : ∃ gap, c'.log = c.log ++ [⟨snapshot, gap⟩] := by
      cases hr with
      | dropped current hcurrent hinstance hle heq => exact ⟨none, by rw [heq]⟩
      | kept gap hlog => exact ⟨some gap, hlog⟩
    obtain ⟨gap, hlog⟩ := hlog
    refine ⟨hr.accounted h.accounted, ?_⟩
    rw [hlog, List.forall_mem_append]
    exact ⟨h.decoded, by simpa using hs⟩

theorem Untouched.recorded {c c' : ClientApp D} (hu : Untouched c c') (h : Recorded c) :
    Recorded c' := ⟨hu.accounted h.accounted, hu.log ▸ h.decoded⟩

theorem step_recorded {c c' : ClientApp D} {event : Event D} (h : Recorded c)
    (hevent : Decodes event) (hstep : c.step event = some c') : Recorded c' := by
  cases event with
  | received snapshot now written => exact receive_recorded h hevent hstep
  | replayed line now written =>
    simp only [step, replayLine] at hstep
    split at hstep
    · cases hstep
    · cases hdecode : decode (D := D) line with
      | error reason => simp [hdecode] at hstep
      | ok snapshot =>
        rw [hdecode] at hstep
        exact receive_recorded h ⟨line, hdecode⟩ hstep
  | replayFinished =>
    obtain rfl := Option.some.inj hstep
    exact (finishReplay_untouched c).recorded h
  | key key =>
    obtain rfl := Option.some.inj hstep
    exact (pressKey_untouched c key).recorded h
  | draw reported now =>
    obtain rfl := Option.some.inj hstep
    exact (draw_untouched c reported now).recorded h

theorem run_recorded {once interactive replay : Bool} {events : List (Event D)} {c : ClientApp D}
    (h : follow step (start once interactive true replay) events = some c)
    (hevents : ∀ event ∈ events, Decodes event) : Recorded c :=
  follow_invariant step_recorded ⟨start_accounted once interactive true replay, List.forall_mem_nil _⟩
    hevents h

/-! ## The replay -/

/-- The line that an event brings. -/
def lineOf : Event D → Option Bytes
  | .replayed line _ _ => some line
  | _ => none

def isReceived : Event D → Bool
  | .received _ _ _ => true
  | _ => false

/-- The lines of a file in a loop without a stream. -/
structure Replay (file : Bytes) (events : List (Event D)) : Prop where
  lines : events.filterMap lineOf = Istream.lines file
  silent : ∀ event ∈ events, isReceived event = false

section

variable [LawfulDouble D]

/-- A line that is replayed as the snapshot. -/
structure Reads (text : Bytes) (snapshot : SystemSnapshot D) : Prop where
  length_le : text.length ≤ kMaxPayload
  decoded : decode text = .ok snapshot

/-- A replay that does not record, in front of lines that it will not drop. -/
structure Ready (c : ClientApp D) (snapshots : List (SystemSnapshot D)) : Prop where
  once : c.once = false
  record : c.record = none
  successive : Successive (c.current.toList ++ snapshots)

omit [Arithmetic D] [LawfulDouble D] in
theorem Untouched.ready {c c' : ClientApp D} {snapshots : List (SystemSnapshot D)}
    (hu : Untouched c c') (h : Ready c snapshots) : Ready c' snapshots :=
  ⟨hu.once.trans h.once, hu.record.trans h.record, hu.current ▸ h.successive⟩

theorem replayLine_ready {c : ClientApp D} {text : Bytes} {snapshot : SystemSnapshot D}
    {snapshots : List (SystemSnapshot D)} (h : Ready c (snapshot :: snapshots))
    (hread : Reads text snapshot) (now : Int) (written : Bool) :
    ∃ c', c.replayLine text now written = some c' ∧ Ready c' snapshots ∧
      c'.snapshots = c.snapshots ++ [snapshot] := by
  obtain ⟨encoded, hencode, -⟩ := encode_of_valid (valid_of_decode hread.decoded)
  have hsome : (c.receive snapshot now written).isSome = true := by
    refine receive_isSome (by rw [hencode]; rfl) ?_ now
    intro hrecord
    rw [h.record] at hrecord
    cases hrecord
  obtain ⟨c', hc'⟩ := Option.isSome_iff_exists.mp hsome
  refine ⟨c', ?_, ?_⟩
  · rw [replayLine, if_neg (not_lt.mpr hread.length_le), hread.decoded]
    exact hc'
  · have hsuccessive := h.successive
    rw [Successive, List.map_append, List.map_cons, List.isChain_append] at hsuccessive
    obtain ⟨-, hrest, hnext⟩ := hsuccessive
    have hr := receive_spec (by simp [h.once]) hc'
    cases hr with
    | dropped current hcurrent hinstance hle heq =>
      have hlt := hnext (identity current) (by simp [hcurrent]) (identity snapshot) rfl hinstance
      exact absurd hlt (not_lt.mpr hle)
    | kept gap hlog honce hcurrent hrecord hgaps hgap hstart =>
      refine ⟨⟨honce.trans h.once, ?_, ?_⟩, ?_⟩
      · rcases hrecord with ⟨-, hnone⟩ | ⟨old, encoded, hold, -⟩
        · exact hnone
        · rw [h.record] at hold
          cases hold
      · rw [hcurrent]
        exact hrest
      · have hmore : accepted (c.log ++ [⟨snapshot, some gap⟩]) =
            accepted c.log ++ [⟨snapshot, some gap⟩] := by
          simp [accepted, Receipt.accepted]
        rw [ClientApp.snapshots, hlog, hmore, List.map_append]
        rfl

/-- A loop over lines that can be read accepts their snapshots one after the other. -/
theorem follow_ready {events : List (Event D)} {c : ClientApp D}
    {snapshots : List (SystemSnapshot D)} (h : Ready c snapshots)
    (hread : List.Forall₂ Reads (events.filterMap lineOf) snapshots)
    (hsilent : ∀ event ∈ events, isReceived event = false) :
    ∃ c', follow step c events = some c' ∧ c'.snapshots = c.snapshots ++ snapshots := by
  induction events generalizing c snapshots with
  | nil =>
    cases hread
    exact ⟨c, rfl, (List.append_nil _).symm⟩
  | cons event events ih =>
    obtain ⟨hevent, hevents⟩ := List.forall_mem_cons.mp hsilent
    have huntouched : ∀ c', Untouched c c' → c.step event = some c' →
        List.Forall₂ Reads (events.filterMap lineOf) snapshots →
        ∃ c'', follow step c (event :: events) = some c'' ∧
          c''.snapshots = c.snapshots ++ snapshots := by
      intro c' hu hstep hread
      obtain ⟨c'', hfollow, hsnapshots⟩ := ih (hu.ready h) hread hevents
      refine ⟨c'', ?_, ?_⟩
      · rw [follow, hstep]
        exact hfollow
      · rw [hsnapshots, ClientApp.snapshots, ClientApp.snapshots, hu.log]
    cases event with
    | received snapshot now written => cases hevent
    | replayed line now written =>
      cases hread with
      | cons hline hread =>
        obtain ⟨c', hstep, hready, hsnapshots⟩ := replayLine_ready h hline now written
        obtain ⟨c'', hfollow, hsnapshots'⟩ := ih hready hread hevents
        refine ⟨c'', ?_, ?_⟩
        · have hstep : c.step (.replayed line now written) = some c' := hstep
          rw [follow, hstep]
          exact hfollow
        · rw [hsnapshots', hsnapshots, List.append_assoc, List.singleton_append]
    | replayFinished => exact huntouched _ (finishReplay_untouched c) rfl hread
    | key key => exact huntouched _ (pressKey_untouched c key) rfl hread
    | draw reported now => exact huntouched _ (draw_untouched c reported now) rfl hread

/-- The lines of a recording are the texts of its snapshots. -/
theorem lines_of_records {record : Bytes} {snapshots : List (SystemSnapshot D)}
    (h : Records record snapshots) (hvalid : ∀ s ∈ snapshots, s.Valid) :
    List.Forall₂ (fun s text => encode s = some text) snapshots (Istream.lines record) := by
  obtain ⟨rows, hrows, rfl⟩ := h
  have htexts : ∃ texts, rows.flatten = texts.flatMap (fun text => text ++ [0x0A]) ∧
      List.Forall₂ (fun s text => encode s = some text) snapshots texts ∧
      ∀ text ∈ texts, (0x0A : UInt8) ∉ text := by
    induction hrows with
    | nil => exact ⟨[], rfl, .nil, List.forall_mem_nil _⟩
    | @cons s row snapshots rows hline _ ih =>
      obtain ⟨hs, hsnapshots⟩ := List.forall_mem_cons.mp hvalid
      obtain ⟨texts, htexts, hencode, hclean⟩ := ih hsnapshots
      obtain ⟨text, htext, -, hnewline⟩ := encode_of_valid hs
      have hrow : row = text ++ [0x0A] := by
        rw [line, htext] at hline
        exact (Option.some.inj hline).symm
      refine ⟨text :: texts, ?_, .cons htext hencode, List.forall_mem_cons.mpr ⟨hnewline, hclean⟩⟩
      rw [List.flatten_cons, List.flatMap_cons, htexts, hrow]
  obtain ⟨texts, hflat, hencode, hclean⟩ := htexts
  rw [hflat, Istream.lines_terminated hclean]
  exact hencode

/-- Every loop over the lines of the file accepts these snapshots. -/
def Replays (record : Bytes) (snapshots : List (SystemSnapshot D)) : Prop :=
  ∀ interactive (events : List (Event D)), Replay record events →
    ∃ c, follow step (start false interactive false true) events = some c ∧
      List.Forall₂ SystemSnapshot.Equal c.snapshots snapshots

theorem identity_congr {s t : SystemSnapshot D} (h : s.Equal t) : identity s = identity t := by
  have htelemetry := congrArg SystemSnapshot.telemetry h
  have hinstance := congrArg TelemetryInfo.instanceId htelemetry
  have hsequence := congrArg TelemetryInfo.sequence htelemetry
  exact congrArg₂ Prod.mk hinstance (congrArg UInt64.toNat hsequence)

theorem successive_congr {s t : List (SystemSnapshot D)}
    (h : List.Forall₂ SystemSnapshot.Equal s t) (ht : Successive t) : Successive s := by
  have hidentity : s.map identity = t.map identity := by
    clear ht
    induction h with
    | nil => rfl
    | cons heq _ ih => rw [List.map_cons, List.map_cons, identity_congr heq, ih]
  rw [Successive, hidentity]
  exact ht

variable [PlainNotation D]

/-- The texts of replayable snapshots are read as equal ones. -/
theorem reads_of_replayable {snapshots : List (SystemSnapshot D)} {texts : List Bytes}
    (h : List.Forall₂ (fun s text => encode s = some text) snapshots texts)
    (hvalid : ∀ s ∈ snapshots, s.Valid) (hreplayable : ∀ s ∈ snapshots, s.Replayable) :
    ∃ copies, List.Forall₂ Reads texts copies ∧
      List.Forall₂ SystemSnapshot.Equal copies snapshots := by
  induction h with
  | nil => exact ⟨[], .nil, .nil⟩
  | @cons s text snapshots texts hencode _ ih =>
    obtain ⟨hs, hvalid⟩ := List.forall_mem_cons.mp hvalid
    obtain ⟨hs', hreplayable⟩ := List.forall_mem_cons.mp hreplayable
    obtain ⟨copies, hreads, hequal⟩ := ih hvalid hreplayable
    obtain ⟨text', htext, -, hlength, copy, hdecode, hcopy⟩ := faithful_of_replayable hs hs'
    obtain rfl := Option.some.inj (htext.symm.trans hencode)
    exact ⟨copy :: copies, .cons ⟨hlength, hdecode⟩ hreads, .cons hcopy hequal⟩

theorem replayable_of_decodes {snapshots : List (SystemSnapshot D)} {texts : List Bytes}
    (h : List.Forall₂ (fun s text => encode s = some text) snapshots texts)
    (hvalid : ∀ s ∈ snapshots, s.Valid)
    (hdecode : ∀ text ∈ texts, ∃ copy : SystemSnapshot D, decode text = .ok copy) :
    ∀ s ∈ snapshots, s.Replayable := by
  induction h with
  | nil => exact List.forall_mem_nil _
  | cons hencode _ ih =>
    obtain ⟨hs, hvalid⟩ := List.forall_mem_cons.mp hvalid
    obtain ⟨⟨copy, hcopy⟩, hdecode⟩ := List.forall_mem_cons.mp hdecode
    exact List.forall_mem_cons.mpr ⟨replayable_of_decode hs hencode hcopy, ih hvalid hdecode⟩

omit [LawfulDouble D] [PlainNotation D] in
/-- A loop over lines that gets to its end has decoded each of them. -/
theorem decoded_of_follow {rows : List Bytes} {c c' : ClientApp D}
    (h : follow step c (rows.map fun row => .replayed row 0 true) = some c') :
    ∀ row ∈ rows, ∃ snapshot : SystemSnapshot D, decode row = .ok snapshot := by
  induction rows generalizing c with
  | nil => exact List.forall_mem_nil _
  | cons row rows ih =>
    obtain ⟨c₁, hstep, hrest⟩ := Option.bind_eq_some_iff.mp h
    refine List.forall_mem_cons.mpr ⟨?_, ih hrest⟩
    simp only [step, replayLine] at hstep
    split at hstep
    · cases hstep
    · cases hdecode : decode (D := D) row with
      | error reason => simp [hdecode] at hstep
      | ok snapshot => exact ⟨snapshot, rfl⟩

/-- A recording replays exactly when every snapshot in it is replayable. -/
theorem replays_iff {record : Bytes} {snapshots : List (SystemSnapshot D)}
    (hrecord : Records record snapshots) (hvalid : ∀ s ∈ snapshots, s.Valid)
    (hsuccessive : Successive snapshots) :
    Replays record snapshots ↔ ∀ s ∈ snapshots, s.Replayable := by
  have hlines := lines_of_records hrecord hvalid
  constructor
  · intro h
    have hreplay : Replay (D := D) record
        ((Istream.lines record).map fun row => .replayed row 0 true) := by
      constructor
      · rw [List.filterMap_map]
        exact List.filterMap_some
      · intro event hevent
        obtain ⟨row, -, rfl⟩ := List.mem_map.mp hevent
        rfl
    obtain ⟨c, hfollow, -⟩ := h false _ hreplay
    exact replayable_of_decodes hlines hvalid (decoded_of_follow hfollow)
  · intro h interactive events hreplay
    obtain ⟨copies, hreads, hequal⟩ := reads_of_replayable hlines hvalid h
    have hready : Ready (start false interactive false true) copies :=
      ⟨rfl, rfl, successive_congr hequal hsuccessive⟩
    obtain ⟨c, hfollow, hsnapshots⟩ :=
      follow_ready hready (hreplay.lines ▸ hreads) hreplay.silent
    exact ⟨c, hfollow, hsnapshots ▸ hequal⟩

/-- The line of a snapshot that Decode has accepted is faithful exactly when the snapshot is
replayable, and so is a recording, at every moment of every run. -/
theorem recording_replays :
    (∀ (payload : Bytes) (s : SystemSnapshot D), decode payload = .ok s →
      (s.Faithful ↔ s.Replayable)) ∧
    ∀ (once interactive replay : Bool) (events : List (Event D)) (c : ClientApp D),
      (∀ event ∈ events, Decodes event) →
      follow step (start once interactive true replay) events = some c →
        ∃ record, c.record = some record ∧
          (Replays record c.snapshots ↔ ∀ s ∈ c.snapshots, s.Replayable) := by
  constructor
  · exact fun payload s h => faithful_iff (valid_of_decode h)
  · intro once interactive replay events c hevents hfollow
    obtain ⟨haccounted, hdecoded⟩ := run_recorded hfollow hevents
    obtain ⟨record, hrecord⟩ := Option.isSome_iff_exists.mp haccounted.recording
    refine ⟨record, hrecord, replays_iff (haccounted.record record hrecord) ?_ ?_⟩
    · intro s hs
      obtain ⟨r, hr, rfl⟩ := List.mem_map.mp hs
      obtain ⟨payload, hpayload⟩ := hdecoded r (List.mem_of_mem_filter hr)
      exact valid_of_decode hpayload
    · exact successive_of_exact haccounted.exact

end

/-! ## Payloads -/

end ClientApp

/-- Numbers as texts. -/
structure Numeral where
  text : Bytes
deriving DecidableEq

instance : Double Numeral where
  isFinite _ := true
  lt _ _ := false
  ofInt64 i := ⟨intToString i.toInt⟩
  ofUInt64 u := ⟨intToString u.toNat⟩
  toChars n := n.text
  fromChars t := some ⟨t⟩

/-- Nothing but an instance, a sequence and a load. -/
def quiet {D : Type} [Double D] (sequence : UInt64) (load : D) : SystemSnapshot D :=
  { timestamp := 0
    cpu := default
    memory := default
    disk := default
    network := default
    loadavg := { (default : LoadavgMetrics D) with load1m := load }
    process := default
    telemetry := { (default : TelemetryInfo D) with instanceId := lit "a", sequence } }

/-- A process as well, and numbers that are no integers. -/
def measured (sequence : UInt64) : SystemSnapshot Binary64 :=
  { quiet sequence (Binary64.round false (1 / 10)) with
    process :=
      { (default : ProcessMetrics Binary64) with
        processes :=
          [{ starttimeTicks := 7, cpuValid := true, pid := 1, name := lit "sh", state := 82
             cpuPercent := Binary64.round false (5 / 2), memoryBytes := 4096
             memoryPercent := zero, threadCount := 1 }] } }

namespace ClientApp

instance : Arithmetic Integral where
  add a b := ⟨a.value + b.value⟩
  sub a b := ⟨a.value - b.value⟩
  mul a b := ⟨a.value * b.value⟩
  div a b := ⟨a.value / b.value⟩
  le a b := decide (a.value ≤ b.value)
  ceil d := d
  trunc d := d.value
  fixed d _ := intToString d.value
  fromStream t := ((Integral.fromChars t).getD zero, (Integral.fromChars t).isSome)

/-- A snapshot, its duplicate, and the next one. -/
def measurements : List (Event Binary64) :=
  [.received (measured 1) 0 true, .received (measured 1) 1 true, .received (measured 2) 2 true]

theorem recording_replays_once : ∃ c record,
    follow step (start false true true false) measurements = some c ∧ c.record = some record ∧
      c.snapshots = [measured 1, measured 2] ∧ Replays record c.snapshots := by
  have hdecodes : ∀ event ∈ measurements, Decodes event := by
    have hfirst : decode ((encode (measured 1)).getD []) = .ok (measured 1) := by decide +kernel
    have hsecond : decode ((encode (measured 2)).getD []) = .ok (measured 2) := by decide +kernel
    simp only [measurements, List.forall_mem_cons]
    exact ⟨⟨_, hfirst⟩, ⟨_, hfirst⟩, ⟨_, hsecond⟩, List.forall_mem_nil _⟩
  have hreplayable : ∀ s ∈ [measured 1, measured 2], s.Replayable := by
    have hnarrow : ∀ s ∈ [measured 1, measured 2], (s.parts.all fun part =>
        match part with
        | .double d => decide (¬ Wide d)
        | .string _ => true) = true := by decide +kernel
    have hsizes : ∀ s ∈ [measured 1, measured 2], s.width ≤ kMaxPayload ∧ s.nodes ≤ 1000000 := by
      decide +kernel
    intro s hs
    refine ⟨fun d hd => ?_, (hsizes s hs).1, (hsizes s hs).2⟩
    exact of_decide_eq_true (List.all_eq_true.mp (hnarrow s hs) _ hd)
  have hsome : (follow step (start false true true false) measurements).map snapshots =
      some [measured 1, measured 2] := by decide +kernel
  obtain ⟨c, hc, hsnapshots⟩ := Option.map_eq_some_iff.mp hsome
  obtain ⟨record, hrecord, hreplays⟩ :=
    (recording_replays (D := Binary64)).2 false true false measurements c hdecodes hc
  exact ⟨c, record, hc, hrecord, hsnapshots, hreplays.mpr (hsnapshots.symm ▸ hreplayable)⟩

/-- A load of 2^64, written with a fraction, is written back as an integer that does not fit. -/
theorem recording_not_faithful :
    ¬ ∀ (payload : Bytes) (s : SystemSnapshot Binary64), decode payload = .ok s → s.Faithful := by
  intro h
  have hdecode : decode ((encode (quiet 1 (⟨lit "18446744073709551616.0"⟩ : Numeral))).getD []) =
      .ok (quiet 1 (Binary64.ofInt (2 ^ 64))) := by decide +kernel
  have hreplayable := (faithful_iff (valid_of_decode hdecode)).mp (h _ _ hdecode)
  have hload : Part.double (Binary64.ofInt (2 ^ 64)) ∈ (quiet 1 (Binary64.ofInt (2 ^ 64))).parts := by
    simp [SystemSnapshot.parts, LoadavgMetrics.parts, quiet]
  exact hreplayable.narrow _ hload (by decide +kernel)

end ClientApp
end WebHtop.Client
