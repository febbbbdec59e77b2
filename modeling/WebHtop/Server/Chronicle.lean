import WebHtop.Server.Sessions

/-!
# The logs of all sessions

Every session that was ever accepted is in the table or among the closed ones. The live
ones agree with their logs, the logs of the others are final, and the bytes sent under a
token are those in the log of its session.
-/

namespace WebHtop.Server

open WebHtop.Lib

/-- The bytes sent under a token. -/
def sentOn (wire : List Sent) (token : Nat) : Bytes :=
  (wire.filter fun c => c.token = token).flatMap Sent.bytes

theorem sentOn_append (wire wire' : List Sent) (token : Nat) :
    sentOn (wire ++ wire') token = sentOn wire token ++ sentOn wire' token := by
  simp [sentOn]

theorem sentOn_other {wire : List Sent} {token : Nat} (h : ∀ c ∈ wire, c.token ≠ token) :
    sentOn wire token = [] := by
  have hnone : (wire.filter fun c => c.token = token) = [] := by
    simp only [List.filter_eq_nil_iff, decide_eq_true_eq]
    exact h
  rw [sentOn, hnone]
  rfl

/-! ## What a handler does to its session -/

/-- The identity of a session. -/
structure Session.Same (s s' : Session) : Prop where
  fd : s'.fd = s.fd
  streaming : s'.streaming = s.streaming
  acceptedAt : s'.acceptedAt = s.acceptedAt

theorem Session.Same.refl (s : Session) : s.Same s := ⟨rfl, rfl, rfl⟩

theorem Session.Same.trans {s s' s'' : Session} (h : s.Same s') (h' : s'.Same s'') : s.Same s'' :=
  ⟨h'.fd.trans h.fd, h'.streaming.trans h.streaming, h'.acceptedAt.trans h.acceptedAt⟩

/-- The bytes that go out while `m` becomes `m'` are of `token`, and in the log of `s'`. -/
structure Carries (token : Nat) (m : Meter) (s : Session) (m' : Meter) (s' : Session) : Prop where
  same : s.Same s'
  chunks : ∃ chunks, m'.wire = m.wire ++ chunks ∧ (∀ c ∈ chunks, c.token = token) ∧
    sentOf s'.log = sentOf s.log ++ sentOn chunks token

theorem Carries.refl (token : Nat) (m : Meter) (s : Session) : Carries token m s m s :=
  ⟨.refl s, [], (List.append_nil _).symm, by simp, (List.append_nil _).symm⟩

theorem Carries.trans {token : Nat} {m m' m'' : Meter} {s s' s'' : Session} (h : Carries token m s m' s')
    (h' : Carries token m' s' m'' s'') : Carries token m s m'' s'' := by
  obtain ⟨chunks, hw, hc, hs⟩ := h.chunks
  obtain ⟨chunks', hw', hc', hs'⟩ := h'.chunks
  refine ⟨h.same.trans h'.same, chunks ++ chunks', ?_, ?_, ?_⟩
  · rw [hw', hw, List.append_assoc]
  · intro c hm
    exact (List.mem_append.mp hm).elim (hc c) (hc' c)
  · rw [hs', hs, sentOn_append, List.append_assoc]

theorem Session.Leaves.and {clock : Nat} {alive : Bool} {s : Session} (h : s.Leaves clock alive)
    (other : Bool) : s.Leaves clock (alive && other) := by
  cases alive with
  | false => exact h
  | true =>
      cases other with
      | true => exact h
      | false => exact ⟨fun hf => (nomatch hf), fun _ => (h.live rfl).past⟩

namespace Meter

variable {m : Meter} {s : Session} {token : Nat}

theorem enqueue_same (m : Meter) (s : Session) (b : Buffer) :
    s.Same (m.enqueue s b).2.1 ∧ sentOf (m.enqueue s b).2.1.log = sentOf s.log := by
  rcases enqueue_cases m s b with ⟨_, he⟩ | ⟨_, he⟩
  · rw [he]
    refine ⟨⟨rfl, rfl, rfl⟩, ?_⟩
    simp only [Session.refused, sentOf_append]
    exact (List.append_nil _).trans (List.append_nil _)
  · rw [he]
    refine ⟨⟨rfl, rfl, rfl⟩, ?_⟩
    simp only [Session.pushed, sentOf_append]
    exact List.append_nil _

theorem enqueue_responding (m : Meter) (s : Session) (b : Buffer) :
    (m.enqueue s b).2.1.responding = s.responding := by
  rcases enqueue_cases m s b with ⟨_, he⟩ | ⟨_, he⟩ <;> rw [he] <;> rfl

theorem carries_enqueue (token : Nat) (m : Meter) (s : Session) (b : Buffer) :
    Carries token m s (m.enqueue s b).2.2 (m.enqueue s b).2.1 := by
  obtain ⟨hsame, hsent⟩ := enqueue_same m s b
  exact ⟨hsame, [], (enqueue_wire m s b).trans (List.append_nil _).symm, by simp,
    hsent.trans (List.append_nil _).symm⟩

theorem carries_read (limit : Buffer) (route : Bytes → Buffer) (tries : Nat)
    (recvs : List RecvResult) :
    Carries token m s (readLoop limit route tries recvs s m).2.2
      (readLoop limit route tries recvs s m).2.1 := by
  induction recvs generalizing tries s with
  | nil => cases tries <;> exact .refl token m s
  | cons result results ih =>
      cases tries with
      | zero => exact .refl token m s
      | succ tries =>
          match result with
          | .interrupted => exact ih tries
          | .wouldBlock => exact .refl token m s
          | .failed => exact .refl token m s
          | .data [] => exact .refl token m s
          | .data (c :: cs) =>
              have hread : ∀ request responding, Carries token m s m { s with
                  request, responding
                  log := s.log ++ [(m.clock, .received ((c :: cs).take 2048))] } := by
                intro request responding
                refine ⟨⟨rfl, rfl, rfl⟩, [], (List.append_nil _).symm, by simp, ?_⟩
                rw [sentOf_append]
                rfl
              simp only [readLoop]
              split
              · exact (hread _ _).trans (ih tries)
              · split
                · exact (hread _ _).trans (ih tries)
                · rename_i response _ _
                  refine (hread [] true).trans ?_
                  exact carries_enqueue _ _ _ _

theorem carries_write (budget : Nat) (sends : List SendResult) :
    Carries token m s (writeLoop token budget sends s m).2.2
      (writeLoop token budget sends s m).2.1 := by
  induction sends generalizing budget s m with
  | nil => exact .refl token m s
  | cons result results ih =>
      simp only [writeLoop]
      split
      · exact .refl token m s
      · cases result with
        | interrupted => exact ih budget
        | wouldBlock => exact .refl token m s
        | failed => exact .refl token m s
        | accepted size elapsed =>
            simp only
            split
            · exact .refl token m s
            · split
              · exact .refl token m s
              · rename_i output ho
                refine Carries.trans ?_ (ih _)
                refine ⟨⟨rfl, rfl, rfl⟩, [_], rfl, ?_, ?_⟩
                · exact fun c hc => List.mem_singleton.mp hc ▸ rfl
                · rw [sentOf_append]
                  simp [sentOn, sentOf, Happening.bytes]

theorem write_frames (token budget : Nat) (sends : List SendResult) :
    enqueuedOf (writeLoop token budget sends s m).2.1.log = enqueuedOf s.log := by
  induction sends generalizing budget s m with
  | nil => rfl
  | cons result results ih =>
      simp only [writeLoop]
      split
      · rfl
      · cases result with
        | interrupted => exact ih budget
        | wouldBlock => rfl
        | failed => rfl
        | accepted size elapsed =>
            simp only
            split
            · rfl
            · split
              · rfl
              · refine (ih _).trans ?_
                rw [enqueuedOf_append]
                exact List.append_nil _

/-- Reads and writes of the session branch of Run. -/
def serve (limit : Buffer) (route : Bytes → Buffer) (token : Nat) (ready : Reactor.Ready)
    (recvs : List RecvResult) (sends : List SendResult) (s : Session) (m : Meter) :
    Bool × Session × Meter :=
  let read :=
    if !ready.error && !s.streaming && !s.responding &&
        (ready.input || ready.readHup || ready.hup) then
      readLoop limit route 8 recvs s m
    else (!ready.error, s, m)
  let written :=
    if read.1 && ready.output then writeLoop token kWriteBudget sends read.2.1 read.2.2 else read
  (written.1 && !ready.hup, written.2.1, written.2.2)

theorem handle_eq {r : Reactor} (limit : Buffer) (route : Bytes → Buffer) {token : Nat}
    (ready : Reactor.Ready) (recvs : List RecvResult) (sends : List SendResult) {s : Session}
    (hg : r.sessions.get token = some s) :
    r.handle limit route token ready recvs sends =
      let served := serve limit route token ready recvs sends s r.toMeter
      let r' : Reactor :=
        { r with toMeter := served.2.2, sessions := r.sessions.set token served.2.1 }
      if served.1 then r'.modify token served.2.1 else r'.close token := by
  simp only [Reactor.handle, hg]
  rfl

/-- The session branch keeps the books of its session. -/
theorem serve_leaves (limit : Buffer) (route : Bytes → Buffer) (token : Nat) (ready : Reactor.Ready)
    (recvs : List RecvResult) (sends : List SendResult) (h : s.Live m.clock) :
    let served := serve limit route token ready recvs sends s m
    served.2.1.Leaves served.2.2.clock served.1 ∧ m.clock ≤ served.2.2.clock ∧
      Carries token m s served.2.2 served.2.1 := by
  simp only [serve]
  generalize hread : (if (!ready.error && !s.streaming && !s.responding &&
    (ready.input || ready.readHup || ready.hup)) = true then
      readLoop limit route 8 recvs s m else (!ready.error, s, m)) = read
  have hr : read.2.1.Leaves read.2.2.clock read.1 ∧ m.clock ≤ read.2.2.clock ∧
      Carries token m s read.2.2 read.2.1 := by
    rw [← hread]
    split
    · rename_i hc
      simp only [Bool.and_eq_true, Bool.not_eq_true'] at hc
      obtain ⟨hleaves, hclock⟩ := leaves_read limit route 8 recvs h.toOpen hc.1.1.2 hc.1.2
      exact ⟨hclock ▸ hleaves, Nat.le_of_eq hclock.symm, carries_read limit route 8 recvs⟩
    · exact ⟨⟨fun _ => h, fun _ => h.past⟩, Nat.le_refl _, .refl token m s⟩
  obtain ⟨hleaves, hle, hcarries⟩ := hr
  split
  · rename_i hc
    have halive : read.1 = true := by
      rw [Bool.and_eq_true] at hc
      exact hc.1
    obtain ⟨hwrite, hclock⟩ := leaves_write token kWriteBudget sends (hleaves.live halive).toOpen
    exact ⟨hwrite.and _, hle.trans hclock, hcarries.trans (carries_write _ sends)⟩
  · exact ⟨hleaves.and _, hle, hcarries⟩

/-- Only Accept and Broadcast enqueue frames. -/
theorem serve_frames (limit : Buffer) (route : Bytes → Buffer) (token : Nat) (ready : Reactor.Ready)
    (recvs : List RecvResult) (sends : List SendResult) (hs : s.streaming = true) :
    enqueuedOf (serve limit route token ready recvs sends s m).2.1.log = enqueuedOf s.log := by
  simp only [serve, hs, Bool.not_true, Bool.and_false, Bool.false_and, Bool.false_eq_true,
    ↓reduceIte]
  split
  · exact write_frames token kWriteBudget sends
  · rfl

end Meter

/-! ## The table and the closed sessions -/

structure Chronicled (m : Meter) (sessions closed : Table Nat Session) (nextToken : Nat) :
    Prop where
  live : ∀ e ∈ sessions, e.2.Live m.clock
  past : ∀ e ∈ closed, e.2.Past
  wire : ∀ e ∈ sessions ++ closed, sentOn m.wire e.1 = sentOf e.2.log
  apart : ∀ t ∈ closed.keys, t ∉ sessions.keys
  sessions_lt : ∀ t ∈ sessions.keys, t < nextToken
  closed_lt : ∀ t ∈ closed.keys, t < nextToken
  wire_lt : ∀ c ∈ m.wire, c.token < nextToken

namespace Chronicled

variable {m m' : Meter} {sessions closed : Table Nat Session} {nextToken token : Nat}
  {s s' : Session}

theorem wire_other (h : Carries token m s m' s') {t : Nat} (ht : t ≠ token) :
    sentOn m'.wire t = sentOn m.wire t := by
  obtain ⟨chunks, hw, hc, -⟩ := h.chunks
  have hnone : sentOn chunks t = [] := sentOn_other fun c hm he => ht (he.symm.trans (hc c hm))
  rw [hw, sentOn_append, hnone, List.append_nil]

theorem wire_same (h : Carries token m s m' s') (heq : sentOn m.wire token = sentOf s.log) :
    sentOn m'.wire token = sentOf s'.log := by
  obtain ⟨chunks, hw, -, hs⟩ := h.chunks
  rw [hw, sentOn_append, heq, hs]

theorem wire_lt_of (h : Carries token m s m' s') (hlt : token < nextToken)
    (hm : ∀ c ∈ m.wire, c.token < nextToken) : ∀ c ∈ m'.wire, c.token < nextToken := by
  obtain ⟨chunks, hw, hc, -⟩ := h.chunks
  rw [hw]
  intro c hmem
  rcases List.mem_append.mp hmem with hmem | hmem
  · exact hm c hmem
  · rw [hc c hmem]
    exact hlt

/-- A session that stays in the table. -/
theorem kept (h : Chronicled m sessions closed nextToken) (hg : sessions.get token = some s)
    (hle : m.clock ≤ m'.clock) (hcar : Carries token m s m' s') (hl : s'.Live m'.clock) :
    Chronicled m' (sessions.set token s') closed nextToken := by
  have hm := Table.mem_of_get hg
  have hk := Table.mem_keys_of_get hg
  refine ⟨?_, h.past, ?_, by simpa using h.apart, by simpa using h.sessions_lt, h.closed_lt,
    wire_lt_of hcar (h.sessions_lt token hk) h.wire_lt⟩
  · intro e he
    rcases (Table.mem_set_iff hk).mp he with rfl | ⟨he, -⟩
    · exact hl
    · exact (h.live e he).mono hle
  · intro e he
    rcases List.mem_append.mp he with he | he
    · rcases (Table.mem_set_iff hk).mp he with rfl | ⟨he, hne⟩
      · exact wire_same hcar (h.wire _ (List.mem_append_left _ hm))
      · rw [wire_other hcar hne]
        exact h.wire e (List.mem_append_left _ he)
    · have hne : e.1 ≠ token := fun heq =>
        h.apart e.1 (List.mem_map_of_mem (f := Prod.fst) he) (heq ▸ hk)
      rw [wire_other hcar hne]
      exact h.wire e (List.mem_append_right _ he)

/-- A session that leaves the table. -/
theorem left (h : Chronicled m sessions closed nextToken) (hg : sessions.get token = some s)
    (hle : m.clock ≤ m'.clock) (hcar : Carries token m s m' s') (hp : s'.Past) :
    Chronicled m' (sessions.erase token) (closed ++ [(token, s')]) nextToken := by
  have hm := Table.mem_of_get hg
  have hk := Table.mem_keys_of_get hg
  have hsub : (sessions.erase token).keys ⊆ sessions.keys := Table.keys_erase_sublist.subset
  have hkeys : Table.keys (closed ++ [(token, s')]) = closed.keys ++ [token] := by
    simp [Table.keys]
  refine ⟨?_, ?_, ?_, ?_, fun t ht => h.sessions_lt t (hsub ht), ?_,
    wire_lt_of hcar (h.sessions_lt token hk) h.wire_lt⟩
  · intro e he
    exact (h.live e (Table.mem_erase_iff.mp he).1).mono hle
  · intro e he
    rcases List.mem_append.mp he with he | he
    · exact h.past e he
    · exact List.mem_singleton.mp he ▸ hp
  · intro e he
    rcases List.mem_append.mp he with he | he
    · obtain ⟨he, hne⟩ := Table.mem_erase_iff.mp he
      rw [wire_other hcar hne]
      exact h.wire e (List.mem_append_left _ he)
    · rcases List.mem_append.mp he with he | he
      · have hne : e.1 ≠ token := fun heq =>
          h.apart e.1 (List.mem_map_of_mem (f := Prod.fst) he) (heq ▸ hk)
        rw [wire_other hcar hne]
        exact h.wire e (List.mem_append_right _ he)
      · obtain rfl := List.mem_singleton.mp he
        exact wire_same hcar (h.wire _ (List.mem_append_left _ hm))
  · intro t ht hmem
    rw [hkeys] at ht
    rcases List.mem_append.mp ht with ht | ht
    · exact h.apart t ht (hsub hmem)
    · obtain rfl := List.mem_singleton.mp ht
      obtain ⟨e, he, heq⟩ := List.mem_map.mp hmem
      exact (Table.mem_erase_iff.mp he).2 heq
  · intro t ht
    rw [hkeys] at ht
    rcases List.mem_append.mp ht with ht | ht
    · exact h.closed_lt t ht
    · exact List.mem_singleton.mp ht ▸ h.sessions_lt token hk

/-- Nothing was sent under a token that is only now issued. -/
theorem unused (h : Chronicled m sessions closed nextToken) : sentOn m.wire nextToken = [] :=
  sentOn_other fun c hc => Nat.ne_of_lt (h.wire_lt c hc)

theorem inserted (h : Chronicled m sessions closed nextToken) (hclock : m'.clock = m.clock)
    (hwire : m'.wire = m.wire) (hl : s.Live m.clock) (hsent : sentOf s.log = []) :
    Chronicled m' (sessions ++ [(nextToken, s)]) closed (nextToken + 1) := by
  have hkeys : Table.keys (sessions ++ [(nextToken, s)]) = sessions.keys ++ [nextToken] := by
    simp [Table.keys]
  refine ⟨?_, h.past, ?_, ?_, ?_, fun t ht => Nat.lt_succ_of_lt (h.closed_lt t ht), ?_⟩
  · intro e he
    rw [hclock]
    rcases List.mem_append.mp he with he | he
    · exact h.live e he
    · exact List.mem_singleton.mp he ▸ hl
  · intro e he
    rw [hwire]
    rcases List.mem_append.mp he with he | he
    · rcases List.mem_append.mp he with he | he
      · exact h.wire e (List.mem_append_left _ he)
      · obtain rfl := List.mem_singleton.mp he
        rw [h.unused, hsent]
    · exact h.wire e (List.mem_append_right _ he)
  · intro t ht hmem
    rw [hkeys] at hmem
    rcases List.mem_append.mp hmem with hmem | hmem
    · exact h.apart t ht hmem
    · exact Nat.ne_of_lt (h.closed_lt t ht) (List.mem_singleton.mp hmem)
  · intro t ht
    rw [hkeys] at ht
    rcases List.mem_append.mp ht with ht | ht
    · exact Nat.lt_succ_of_lt (h.sessions_lt t ht)
    · exact List.mem_singleton.mp ht ▸ Nat.lt_succ_self _
  · rw [hwire]
    exact fun c hc => Nat.lt_succ_of_lt (h.wire_lt c hc)

theorem refused (h : Chronicled m sessions closed nextToken) (hclock : m'.clock = m.clock)
    (hwire : m'.wire = m.wire) (hp : s.Past) (hsent : sentOf s.log = []) :
    Chronicled m' sessions (closed ++ [(nextToken, s)]) (nextToken + 1) := by
  have hkeys : Table.keys (closed ++ [(nextToken, s)]) = closed.keys ++ [nextToken] := by
    simp [Table.keys]
  refine ⟨?_, ?_, ?_, ?_, fun t ht => Nat.lt_succ_of_lt (h.sessions_lt t ht), ?_, ?_⟩
  · rw [hclock]
    exact h.live
  · intro e he
    rcases List.mem_append.mp he with he | he
    · exact h.past e he
    · exact List.mem_singleton.mp he ▸ hp
  · intro e he
    rw [hwire]
    rw [← List.append_assoc] at he
    rcases List.mem_append.mp he with he | he
    · exact h.wire e he
    · obtain rfl := List.mem_singleton.mp he
      rw [h.unused, hsent]
  · intro t ht hmem
    rw [hkeys] at ht
    rcases List.mem_append.mp ht with ht | ht
    · exact h.apart t ht hmem
    · exact Nat.ne_of_lt (h.sessions_lt t hmem) (List.mem_singleton.mp ht)
  · intro t ht
    rw [hkeys] at ht
    rcases List.mem_append.mp ht with ht | ht
    · exact Nat.lt_succ_of_lt (h.closed_lt t ht)
    · exact List.mem_singleton.mp ht ▸ Nat.lt_succ_self _
  · rw [hwire]
    exact fun c hc => Nat.lt_succ_of_lt (h.wire_lt c hc)

theorem reordered (h : Chronicled m sessions closed nextToken) {sessions' : Table Nat Session}
    (hp : sessions'.Perm sessions) : Chronicled m sessions' closed nextToken := by
  have hk : sessions'.keys.Perm sessions.keys := hp.map _
  refine ⟨fun e he => h.live e (hp.subset he), h.past, ?_, fun t ht hm => h.apart t ht (hk.subset hm),
    fun t ht => h.sessions_lt t (hk.subset ht), h.closed_lt, h.wire_lt⟩
  exact fun e he => h.wire e ((hp.append_right closed).subset he)

theorem elapsed (h : Chronicled m sessions closed nextToken) (n : Nat) :
    Chronicled { m with clock := m.clock + n } sessions closed nextToken :=
  ⟨fun e he => (h.live e he).mono (Nat.le_add_right _ _), h.past, h.wire, h.apart, h.sessions_lt,
    h.closed_lt, h.wire_lt⟩

theorem cleared (h : Chronicled m sessions closed nextToken) (queuedBytes : Nat) :
    Chronicled { m with queuedBytes } [] (closed ++ sessions) nextToken := by
  have hkeys : Table.keys (closed ++ sessions) = closed.keys ++ sessions.keys := by
    simp [Table.keys]
  refine ⟨by simp, ?_, ?_, by simp [Table.keys], by simp [Table.keys], ?_, h.wire_lt⟩
  · intro e he
    rcases List.mem_append.mp he with he | he
    · exact h.past e he
    · exact (h.live e he).past
  · intro e he
    rcases List.mem_append.mp he with he | he
    · cases he
    · exact h.wire e (List.mem_append.mpr (List.mem_append.mp he).symm)
  · intro t ht
    rw [hkeys] at ht
    rcases List.mem_append.mp ht with ht | ht
    · exact h.closed_lt t ht
    · exact h.sessions_lt t ht

end Chronicled
end WebHtop.Server
