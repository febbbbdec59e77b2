import WebHtop.Lib.Runs
import WebHtop.Common.Acceptance
import WebHtop.Client.StreamConnection

/-!
# What a connection hands to its receiver

The log of a run splits into connections, each with its own bytes. A connection hands
on what its own bytes contain, whatever the connections before it ended with.
-/

namespace WebHtop.Client

open WebHtop.Lib WebHtop.Common

variable {D : Type} [Double D]

/-- The snapshots in a stream of frames, up to the first bad length or rejected payload. -/
def snapshots (received : Bytes) : List (SystemSnapshot D) :=
  takeOk decode (cut frontFrame received).1

/-- One connection: the bytes it received and the snapshots it handed on. -/
structure Connection (D : Type) where
  received : Bytes := []
  handed : List (SystemSnapshot D) := []

/-- The connections that are over, and the open one. -/
structure History (D : Type) where
  past : List (Connection D) := []
  current : Option (Connection D) := none

namespace History

def all (h : History D) : List (Connection D) := h.past ++ h.current.toList

/-- What an action adds. Bytes and snapshots belong to the open connection, which is
opened and closed once. -/
def note (h : History D) (a : Action D) : Option (History D) :=
  match h.current, a with
  | none, .opened _ => some { h with current := some {} }
  | some x, .received bytes => some { h with current := some { x with received := x.received ++ bytes } }
  | some x, .handed snapshot =>
    some { h with current := some { x with handed := x.handed ++ [snapshot] } }
  | some x, .closed _ => some { past := h.past ++ [x], current := none }
  | _, _ => none

/-- The history that a log tells. -/
def ofLog (log : List (Action D)) : Option (History D) := follow note {} log

end History

def Action.snapshot : Action D → Option (SystemSnapshot D)
  | .handed snapshot => some snapshot
  | _ => none

namespace StreamConnection

/-- The snapshots given to `receive`, in order. -/
def handed (c : StreamConnection D) : List (SystemSnapshot D) := c.log.filterMap Action.snapshot

/-! ## Between connections and inside one -/

/-- Nothing is left of a connection that is over. -/
structure Idle (c : StreamConnection D) : Prop where
  socket : c.socket = none
  connected : c.connected = false
  inFrame : c.inFrame = false
  decoder : c.decoder = {}

/-- The decoder has seen `seen` of the frame that the stream is in. -/
structure Reading (c : StreamConnection D) (seen : Bytes) : Prop where
  socket : c.socket ≠ none
  holds : Holds c.decoder seen
  incomplete : c.decoder.complete = false
  inFrame : c.inFrame = true ↔ seen ≠ []

variable {c : StreamConnection D} {seen : Bytes}

omit [Double D] in
theorem idle_disconnect (c : StreamConnection D) (reason : Bytes) (pause : Pause) :
    (c.disconnect reason pause).Idle := ⟨rfl, rfl, rfl, rfl⟩

omit [Double D] in
theorem log_disconnect (h : c.socket ≠ none) (reason : Bytes) (pause : Pause) :
    (c.disconnect reason pause).log = c.log ++ [.closed reason] := by
  have hs : c.socket.isSome = true := Option.isSome_iff_ne_none.mpr h
  simp only [disconnect, hs, ↓reduceIte]

omit [Double D] in
theorem enterFrame_spec (c : StreamConnection D) (now : Int) :
    (c.enterFrame now).inFrame = true ∧ (c.enterFrame now).socket = c.socket ∧
      (c.enterFrame now).decoder = c.decoder ∧ (c.enterFrame now).log = c.log := by
  unfold enterFrame
  split
  · exact ⟨‹_›, rfl, rfl, rfl⟩
  · exact ⟨rfl, rfl, rfl, rfl⟩

/-- One chunk: either it is used up and leaves the start of a frame, or its first bad
length or rejected payload ends the connection. -/
theorem takeChunk_spec {fuel : Nat} {bytes : Bytes} (readings : Readings) (pause : Pause)
    (hfuel : bytes.length ≤ fuel) (h : c.Reading seen) :
    (∃ c' seen', takeChunk readings pause fuel c bytes = some (true, c') ∧ c'.Reading seen' ∧
      (cut frontFrame (seen ++ bytes)).2 = some seen' ∧
      (∀ p ∈ (cut frontFrame (seen ++ bytes)).1, ∃ s : SystemSnapshot D, decode p = .ok s) ∧
      c'.log = c.log ++ (snapshots (seen ++ bytes)).map .handed) ∨
    (∃ c' reason, takeChunk readings pause fuel c bytes = some (false, c') ∧ c'.Idle ∧
      c'.log = c.log ++ (snapshots (seen ++ bytes)).map .handed ++ [.closed reason]) := by
  induction fuel generalizing c seen bytes with
  | zero =>
      obtain rfl := List.eq_nil_of_length_eq_zero (Nat.le_zero.mp hfuel)
      have hc := SelfDelimiting.cut_more ((FrameDecoder.frontFrame_more h.holds).mpr h.incomplete)
      left
      rw [snapshots, List.append_nil, hc]
      exact ⟨c, seen, rfl, h, rfl, by simp, by simp [takeOk]⟩
  | succ fuel ih =>
      cases bytes with
      | nil =>
          have hc := SelfDelimiting.cut_more ((FrameDecoder.frontFrame_more h.holds).mpr h.incomplete)
          left
          rw [snapshots, List.append_nil, hc]
          exact ⟨c, seen, rfl, h, rfl, by simp, by simp [takeOk]⟩
      | cons b bytes =>
          obtain ⟨hin, hsocket, hdecoder, hlog⟩ :=
            enterFrame_spec c (readings.frameStarted (bytes.length + 1))
          have hopen := hsocket ▸ h.socket
          rw [takeChunk]
          generalize c.enterFrame (readings.frameStarted (bytes.length + 1)) = c₁
            at hin hsocket hdecoder hlog hopen
          rw [hdecoder]
          rcases FrameDecoder.feed_spec h.holds h.incomplete (List.cons_ne_nil b bytes) with
            ⟨hf, hbad⟩ | ⟨n, d, hf, hpos, hle, hh, ⟨hcomp, hitem⟩ | ⟨hcomp, hall⟩⟩
          · right
            rw [snapshots, SelfDelimiting.cut_bad hbad]
            simp only [hf]
            refine ⟨_, lit "invalid frame length", rfl, idle_disconnect _ _ _, ?_⟩
            rw [log_disconnect hopen, hlog]
            simp [takeOk]
          · have hrest : ((b :: bytes).drop n).length ≤ fuel := by
              rw [List.length_drop]
              omega
            simp only [snapshots, hf, hcomp, ↓reduceIte, selfDelimiting_frontFrame.cut_item hitem]
            cases hd : decode (D := D) d.payload with
            | error reason =>
                right
                refine ⟨_, reason, rfl, idle_disconnect _ _ _, ?_⟩
                rw [log_disconnect (by exact hopen), hlog, takeOk_error hd]
                simp
            | ok snapshot =>
                have hfresh : Reading { c₁ with
                    decoder := d.reset
                    inFrame := false
                    lastFrame := readings.lastFrame ((b :: bytes).drop n).length
                    attempts := 0
                    log := c₁.log ++ [.handed snapshot] } [] :=
                  ⟨hopen, holds_init, rfl, by simp⟩
                rw [takeOk_ok hd]
                rcases ih hrest hfresh with
                  ⟨c', seen', ht, hr, hcut, hok, hl⟩ | ⟨c', reason, ht, hi, hl⟩
                · left
                  refine ⟨c', seen', ht, hr, hcut, ?_, ?_⟩
                  · intro p hp
                    rcases List.mem_cons.mp hp with rfl | hp
                    · exact ⟨snapshot, hd⟩
                    · exact hok p hp
                  · rw [hl, hlog]
                    simp [snapshots]
                · right
                  refine ⟨c', reason, ht, hi, ?_⟩
                  rw [hl, hlog]
                  simp [snapshots]
          · -- The chunk ends inside the frame.
            have hdrop : (b :: bytes).drop n = [] := List.drop_of_length_le (by omega)
            have htake : (b :: bytes).take n = b :: bytes := List.take_of_length_le (by omega)
            rw [htake] at hh
            have hcut := SelfDelimiting.cut_more ((FrameDecoder.frontFrame_more hh).mpr hcomp)
            left
            simp only [snapshots, hf, hcomp, Bool.false_eq_true, ↓reduceIte, hdrop, hcut]
            refine ⟨{ c₁ with decoder := d }, seen ++ b :: bytes, ?_, ⟨hopen, hh, hcomp, ?_⟩, rfl,
              by simp, by simp [hlog, takeOk]⟩
            · cases fuel <;> rfl
            · simp [hin]

/-! ## The log and the state tell the same story -/

/-- An open connection: it has handed on all that its whole frames contain, and `seen`
follows them. -/
structure Faithful (x : Connection D) (seen : Bytes) : Prop where
  handed : x.handed = snapshots x.received
  accepted : ∀ p ∈ (cut frontFrame x.received).1, ∃ s : SystemSnapshot D, decode p = .ok s
  rest : (cut frontFrame x.received).2 = some seen

structure Tells (c : StreamConnection D) (h : History D) : Prop where
  log : History.ofLog c.log = some h
  past : ∀ x ∈ h.past, x.handed = snapshots x.received
  present : c.Idle ∧ h.current = none ∨
    ∃ x seen, h.current = some x ∧ Faithful x seen ∧ c.Reading seen

variable {h : History D} {x : Connection D}

omit [Double D] in
theorem ofLog_append {log more : List (Action D)} (hl : History.ofLog log = some h) :
    History.ofLog (log ++ more) = follow History.note h more := by
  have hl : follow History.note {} log = some h := hl
  rw [History.ofLog, follow_append, hl, Option.bind_some]

omit [Double D] in
theorem note_handed (past : List (Connection D)) (x : Connection D)
    (ss : List (SystemSnapshot D)) :
    follow History.note ⟨past, some x⟩ (ss.map .handed) =
      some ⟨past, some { x with handed := x.handed ++ ss }⟩ := by
  induction ss generalizing x with
  | nil => simp [follow]
  | cons s ss ih => simp [follow, History.note, ih]

/-- A connection that is over joins the past. -/
theorem tells_closed {c' : StreamConnection D} {past : List (Connection D)}
    {log : List (Action D)} {reason : Bytes} (hl : History.ofLog log = some ⟨past, some x⟩)
    (hp : ∀ y ∈ past, y.handed = snapshots y.received) (hx : x.handed = snapshots x.received)
    (hi : c'.Idle) (hc : c'.log = log ++ [.closed reason]) : Tells c' ⟨past ++ [x], none⟩ := by
  refine ⟨?_, ?_, .inl ⟨hi, rfl⟩⟩
  · rw [hc, ofLog_append hl]
    rfl
  · intro y hy
    rcases List.mem_append.mp hy with hy | hy
    · exact hp y hy
    · obtain rfl := List.mem_singleton.mp hy
      exact hx

theorem tells_disconnect (h : Tells c ⟨past, some x⟩) (reason : Bytes) (pause : Pause) :
    Tells (c.disconnect reason pause) ⟨past ++ [x], none⟩ := by
  rcases h.present with ⟨_, hcur⟩ | ⟨y, seen, hcur, hf, hr⟩
  · simp at hcur
  · obtain rfl := Option.some.inj hcur
    exact tells_closed h.log h.past hf.handed (idle_disconnect c reason pause)
      (log_disconnect hr.socket reason pause)

/-- One chunk of an open connection, in the words of its history. -/
theorem takeChunk_tells {past : List (Connection D)} (h : Tells c ⟨past, some x⟩)
    (chunk : Bytes) (readings : Readings) (pause : Pause) :
    ∃ going c' h',
      takeChunk readings pause chunk.length
        { c with
          bytes := c.bytes + UInt64.ofNat chunk.length
          log := c.log ++ [.received chunk] } chunk = some (going, c') ∧
      Tells c' h' ∧ (going = true → h'.current.isSome) := by
  rcases h.present with ⟨_, hcur⟩ | ⟨y, seen, hcur, hf, hr⟩
  · simp at hcur
  obtain rfl := Option.some.inj hcur
  have hcut := selfDelimiting_frontFrame.cut_append hf.rest chunk
  have htake : snapshots (x.received ++ chunk) = x.handed ++ snapshots (D := D) (seen ++ chunk) := by
    rw [snapshots, hcut, takeOk_append hf.accepted, hf.handed]
    rfl
  have hreading : Reading { c with
      bytes := c.bytes + UInt64.ofNat chunk.length
      log := c.log ++ [.received chunk] } seen := ⟨hr.socket, hr.holds, hr.incomplete, hr.inFrame⟩
  have hlog : History.ofLog (c.log ++ [.received chunk] ++
      (snapshots (D := D) (seen ++ chunk)).map .handed) =
        some ⟨past, some ⟨x.received ++ chunk, x.handed ++ snapshots (seen ++ chunk)⟩⟩ := by
    rw [List.append_assoc, ofLog_append h.log, follow_append]
    exact note_handed past ⟨x.received ++ chunk, x.handed⟩ _
  rcases takeChunk_spec readings pause (Nat.le_refl _) hreading with
    ⟨c', seen', ht, hr', hrest, hok, hl⟩ | ⟨c', reason, ht, hi, hl⟩
  · have hfaithful : Faithful ⟨x.received ++ chunk, x.handed ++ snapshots (seen ++ chunk)⟩ seen' := by
      refine ⟨htake.symm, ?_, by rw [hcut, hrest]⟩
      intro p hp
      rw [hcut] at hp
      rcases List.mem_append.mp hp with hp | hp
      · exact hf.accepted p hp
      · exact hok p hp
    refine ⟨true, c', ⟨past, some ⟨x.received ++ chunk, x.handed ++ snapshots (seen ++ chunk)⟩⟩, ht,
      ⟨?_, h.past, .inr ⟨_, seen', rfl, hfaithful, hr'⟩⟩, fun _ => rfl⟩
    rw [hl]
    exact hlog
  · exact ⟨false, c', _, ht, tells_closed hlog h.past htake.symm hi hl, fun h => by simp at h⟩

theorem receiveLoop_tells {past : List (Connection D)} (h : Tells c ⟨past, some x⟩)
    (pause : Pause) (reads : Nat) (results : List RecvResult) :
    ∃ c' h', receiveLoop pause reads results c = some c' ∧ Tells c' h' := by
  induction reads generalizing c past x results with
  | zero => exact ⟨c, _, rfl, h⟩
  | succ reads ih =>
      match results with
      | [] => exact ⟨c, _, rfl, h⟩
      | .interrupted :: results => exact ih h results
      | .wouldBlock :: results => exact ⟨c, _, rfl, h⟩
      | .failed :: results => exact ⟨_, _, rfl, tells_disconnect h _ _⟩
      | .data [] _ :: results => exact ⟨_, _, rfl, tells_disconnect h _ _⟩
      | .data (b :: bytes) readings :: results =>
          obtain ⟨going, c', h', ht, htells, hopen⟩ :=
            takeChunk_tells h ((b :: bytes).take 16384) readings pause
          simp only [receiveLoop, ht]
          cases going with
          | false => exact ⟨c', h', rfl, htells⟩
          | true =>
              obtain ⟨past', current⟩ := h'
              obtain ⟨x', rfl⟩ := Option.isSome_iff_exists.mp (hopen rfl)
              exact ih htells results

theorem init_tells {addresses : List Address} (hi : init addresses = some c) : Tells c {} := by
  unfold init at hi
  split at hi
  · obtain rfl := Option.some.inj hi
    exact ⟨rfl, by simp, .inl ⟨⟨rfl, rfl, rfl, rfl⟩, rfl⟩⟩
  · simp at hi

/-- Opening a socket starts a connection without bytes. -/
theorem connect_tells {past : List (Connection D)} (h : Tells c ⟨past, none⟩) (now : Int) (fd : Nat)
    (connected : Bool) : Tells (c.connect now fd connected) ⟨past, some {}⟩ := by
  rcases h.present with ⟨hi, _⟩ | ⟨_, _, hcur, _⟩
  · have hempty : cut frontFrame [] = ([], some []) := rfl
    refine ⟨?_, h.past, .inr ⟨_, [], rfl, ⟨?_, ?_, ?_⟩, ?_⟩⟩
    · exact ofLog_append h.log
    · rw [snapshots, hempty]
      rfl
    · simp [hempty]
    · rw [hempty]
    · refine ⟨Option.some_ne_none fd, ?_, ?_, ?_⟩
      · exact hi.decoder ▸ holds_init
      · simp only [connect, hi.decoder]
        rfl
      · simp [connect, hi.inFrame]
  · simp at hcur

/-- Disconnect without a socket, after a failed Connect. -/
theorem tells_retry {past : List (Connection D)} (h : Tells c ⟨past, none⟩) (hs : c.socket = none)
    (index : UInt64) (reason : Bytes) (pause : Pause) :
    Tells (disconnect { c with addressIndex := index } reason pause) ⟨past, none⟩ := by
  refine ⟨?_, h.past, .inl ⟨idle_disconnect _ _ _, rfl⟩⟩
  simp only [disconnect, hs, Option.isSome_none, Bool.false_eq_true, ↓reduceIte, List.append_nil]
  exact h.log

/-- A socket is there exactly while a connection is open. -/
theorem socket_iff {h : History D} (ht : Tells c h) : c.socket = none ↔ h.current = none := by
  rcases ht.present with ⟨hi, hcur⟩ | ⟨x, _, hcur, _, hr⟩
  · simp [hi.socket, hcur]
  · simp [hr.socket, hcur]

theorem tick_tells {h : History D} (ht : Tells c h) (now : Int) (result : ConnectResult)
    (pause : Pause) : ∃ h', Tells (c.tick now result pause) h' := by
  obtain ⟨past, current⟩ := h
  have hsocket := socket_iff ht
  unfold tick
  by_cases hs : c.socket = none
  · have hcur : current = none := hsocket.mp hs
    subst hcur
    rw [if_neg (by simp [hs])]
    split
    · exact ⟨_, ht⟩
    · cases result with
      | failed => exact ⟨_, tells_retry ht hs _ _ _⟩
      | connected fd => exact ⟨_, connect_tells ht now fd true⟩
      | connecting fd => exact ⟨_, connect_tells ht now fd false⟩
  · obtain ⟨x, rfl⟩ := Option.ne_none_iff_exists'.mp fun hcur => hs (hsocket.mpr hcur)
    rw [if_pos (Option.isSome_iff_ne_none.mpr hs)]
    split
    · exact ⟨_, tells_disconnect ht _ _⟩
    · split
      · exact ⟨_, tells_disconnect ht _ _⟩
      · split
        · exact ⟨_, tells_disconnect ht _ _⟩
        · exact ⟨_, ht⟩

/-- The flag and the times of a connection that is found established. -/
theorem established_tells {h : History D} (ht : Tells c h) (hs : c.socket ≠ none) (status : Bytes)
    (now : Int) : Tells { c with connected := true, status, lastFrame := now } h := by
  refine ⟨ht.log, ht.past, ?_⟩
  rcases ht.present with ⟨hi, _⟩ | ⟨x, seen, hcur, hf, hr⟩
  · exact absurd hi.socket hs
  · exact .inr ⟨x, seen, hcur, hf, ⟨hr.socket, hr.holds, hr.incomplete, hr.inFrame⟩⟩

theorem handle_tells {h : History D} (ht : Tells c h) (events : Polled) (checkConnected : Bool)
    (now : Int) (recvs : List RecvResult) (pause : Pause) :
    ∃ c' h', c.handle events checkConnected now recvs pause = some c' ∧ Tells c' h' := by
  unfold handle
  by_cases hs : c.socket = none
  · exact ⟨c, h, by simp [hs], ht⟩
  obtain ⟨past, current⟩ := h
  obtain ⟨x, rfl⟩ := Option.ne_none_iff_exists'.mp (fun hcur => hs ((socket_iff ht).mpr hcur))
  have hsome : c.socket.isNone = false := Option.isNone_eq_false_iff.mpr (Option.isSome_iff_ne_none.mpr hs)
  rw [if_neg (by simp [hsome])]
  split
  · exact ⟨_, _, rfl, tells_disconnect ht _ _⟩
  · split
    · exact ⟨_, _, rfl, ht⟩
    · split
      · exact ⟨_, _, rfl, tells_disconnect ht _ _⟩
      · have hon : Tells (if c.connected then c
            else { c with connected := true, status := lit "connected", lastFrame := now })
            ⟨past, some x⟩ := by
          split
          · exact ht
          · exact established_tells ht hs _ _
        simp only
        split
        · exact ⟨_, _, rfl, hon⟩
        · exact receiveLoop_tells hon pause 16 recvs

theorem step_tells {h : History D} (ht : Tells c h) (e : Event) :
    ∃ c', c.step e = some c' ∧ ∃ h', Tells c' h' := by
  cases e with
  | tick now result pause => exact ⟨_, rfl, tick_tells ht now result pause⟩
  | handle events checkConnected now recvs pause =>
      obtain ⟨c', h', hc, ht⟩ := handle_tells ht events checkConnected now recvs pause
      exact ⟨c', hc, h', ht⟩

/-! ## What the log says was handed on -/

omit [Double D] in
theorem note_snapshot {h h' : History D} {a : Action D} (hn : h.note a = some h') :
    h'.all.flatMap Connection.handed =
      h.all.flatMap Connection.handed ++ a.snapshot.toList := by
  obtain ⟨past, current⟩ := h
  cases current with
  | none =>
      cases a with
      | opened address =>
          obtain rfl := Option.some.inj hn
          simp [History.all, Action.snapshot]
      | _ => simp [History.note] at hn
  | some x =>
      cases a with
      | opened address => simp [History.note] at hn
      | _ =>
          obtain rfl := Option.some.inj hn
          simp [History.all, Action.snapshot]

omit [Double D] in
/-- No snapshot is handed on outside a connection. -/
theorem handed_ofLog {log : List (Action D)} {h h' : History D}
    (hf : follow History.note h log = some h') :
    h'.all.flatMap Connection.handed =
      h.all.flatMap Connection.handed ++ log.filterMap Action.snapshot := by
  induction log generalizing h with
  | nil =>
      obtain rfl := Option.some.inj hf
      simp
  | cons a log ih =>
      obtain ⟨m, hm, hf⟩ := Option.bind_eq_some_iff.mp hf
      rw [ih hf, note_snapshot hm, List.append_assoc]
      cases ha : a.snapshot with
      | none => simp [ha]
      | some s => simp [ha]

/-- Between two events: no socket leaves nothing behind, the flag marks a frame that has
begun and is not complete, and a payload stays within the limit. -/
structure Tidy (c : StreamConnection D) : Prop where
  closed : c.socket = none → c.connected = false ∧ c.inFrame = false ∧ c.decoder = {}
  inFrame : c.inFrame = true ↔ 0 < c.decoder.headerBytes
  incomplete : c.decoder.complete = false
  bounded : c.decoder.payload.length ≤ kMaxPayload

theorem tidy_of_tells {h : History D} (ht : Tells c h) : Tidy c := by
  rcases ht.present with ⟨hi, _⟩ | ⟨x, seen, _, _, hr⟩
  · refine ⟨fun _ => ⟨hi.connected, hi.inFrame, hi.decoder⟩, ?_, ?_, ?_⟩
    · simp [hi.inFrame, hi.decoder]
    · rw [hi.decoder]
      rfl
    · simp [hi.decoder]
  · have hhead := hr.holds.header
    refine ⟨fun hs => absurd hs hr.socket, ?_, hr.incomplete, ?_⟩
    · rw [hr.inFrame, ← List.length_pos_iff]
      omega
    · have hwithin := hr.holds.within
      rw [hr.holds.payload, List.length_drop]
      by_cases h4 : 4 ≤ seen.length
      · have := (hr.holds.valid h4).2
        omega
      · omega

/-- After any events, the log splits into connections, and what was handed to the receiver
is, connection by connection, what the whole frames of its own bytes decode to. The decoder
holds what follows these frames in the bytes of the open connection. -/
theorem stream_handed {addresses : List Address} {c₀ : StreamConnection D}
    (hi : init addresses = some c₀) (events : List Event) :
    ∃ c, follow step c₀ events = some c ∧ Tidy c ∧
      ∃ h, History.ofLog c.log = some h ∧ (h.current = none ↔ c.socket = none) ∧
        (∀ x ∈ h.all, x.handed = snapshots x.received) ∧
        c.handed = h.all.flatMap (fun x => snapshots x.received) ∧
        ∀ x ∈ h.current, ∃ seen, (cut frontFrame x.received).2 = some seen ∧
          Holds c.decoder seen := by
  obtain ⟨c, hc, h, ht⟩ := follow_total (I := fun c => ∃ h, Tells c h) ⟨_, init_tells hi⟩
    (fun e ha => ha.elim fun _ ht => step_tells ht e) events
  have hall : ∀ x ∈ h.all, x.handed = snapshots x.received := by
    intro x hx
    rcases List.mem_append.mp hx with hx | hx
    · exact ht.past x hx
    · rcases ht.present with ⟨_, hcur⟩ | ⟨y, seen, hcur, hf, _⟩
      · simp [hcur] at hx
      · simp only [hcur, Option.toList_some, List.mem_singleton] at hx
        exact hx ▸ hf.handed
  refine ⟨c, hc, tidy_of_tells ht, h, ht.log, (socket_iff ht).symm, hall, ?_, ?_⟩
  · have := handed_ofLog ht.log
    rw [handed, ← List.nil_append (c.log.filterMap _)]
    refine this.symm.trans (List.flatMap_congr fun x hx => hall x hx)
  · intro x hx
    rcases ht.present with ⟨_, hcur⟩ | ⟨y, seen, hcur, hf, hr⟩
    · rw [hcur] at hx
      simp at hx
    · rw [hcur] at hx
      obtain rfl := Option.some.inj hx
      exact ⟨seen, hf.rest, hr.holds⟩

/-- A snapshot as it is sent. -/
def greeting : Bytes := ((encode misnamed).bind frame).getD []

/-- A stream that gives a snapshot and is cut off in a length, one with a bad length, one that stops
inside a payload. -/
def interrupted : List Event :=
  let pause : Pause := { now := 0, draw := 0 }
  let readings : Readings := { frameStarted := fun _ => 0, lastFrame := fun _ => 0 }
  [.tick 0 (.connected 5) pause,
    .handle { pollin := true } true 0
      [.data (greeting.take 100) readings, .interrupted,
        .data (greeting.drop 100 ++ [0, 0]) readings, .data [] readings] pause,
    .tick (seconds 20) (.connecting 6) pause,
    .handle { pollin := true, pollout := true } true 0 [.data [0, 0, 0, 0] readings] pause,
    .tick (seconds 40) (.connected 7) pause,
    .handle { pollin := true } true 0 [.data [0, 0, 0, 9, 123] readings, .wouldBlock] pause]

theorem stream_handed_interrupted :
    ∃ c : StreamConnection Integral,
      (init [⟨2, []⟩]).bind (fun c₀ => follow step c₀ interrupted) = some c ∧ Tidy c ∧
        c.reconnects = 2 ∧ c.inFrame = true ∧
        c.handed.map (fun s => s.process.processes.map ProcessInfo.name) = [[[0xC3, 0xBF]]] ∧
        ∃ h, History.ofLog c.log = some h ∧
          h.all.map Connection.received = [greeting ++ [0, 0], [0, 0, 0, 0], [0, 0, 0, 9, 123]] ∧
          ∀ x ∈ h.all, x.handed = snapshots x.received := by
  have hstate : ((init (D := Integral) [⟨2, []⟩]).bind fun c₀ => follow step c₀ interrupted).map
      (fun c => (c.reconnects, c.inFrame,
        c.handed.map fun s => s.process.processes.map ProcessInfo.name)) =
      some (2, true, [[[0xC3, 0xBF]]]) := by decide +kernel
  have hlogged : ((init (D := Integral) [⟨2, []⟩]).bind fun c₀ => follow step c₀ interrupted).bind
      (fun c => (History.ofLog c.log).map fun h => h.all.map Connection.received) =
      some [greeting ++ [0, 0], [0, 0, 0, 0], [0, 0, 0, 9, 123]] := by decide +kernel
  obtain ⟨c₀, hi⟩ : ∃ c₀, init (D := Integral) [⟨2, []⟩] = some c₀ := ⟨_, rfl⟩
  obtain ⟨c, hc, htidy, h, hl, _, hall, _⟩ := stream_handed hi interrupted
  have hrun : (init (D := Integral) [⟨2, []⟩]).bind (fun c₀ => follow step c₀ interrupted) = some c := by
    rw [hi, Option.bind_some, hc]
  rw [hrun, Option.map_some] at hstate
  rw [hrun, Option.bind_some, hl, Option.map_some, Option.some.injEq] at hlogged
  simp only [Option.some.injEq, Prod.mk.injEq] at hstate
  obtain ⟨hreconnects, hinFrame, hhanded⟩ := hstate
  exact ⟨c, hrun, htidy, hreconnects, hinFrame, hhanded, h, hl, hlogged, hall⟩

end StreamConnection
end WebHtop.Client
