import WebHtop.Server.Accounting
import WebHtop.Server.Http.Route

/-!
# Requests in pieces

What a session answers depends on the bytes it has received alone, however the network cuts them
over calls of recv and over read events. Between its events anything may happen elsewhere in the
reactor, as long as the session itself stays as it is.
-/

namespace WebHtop.Server

open WebHtop.Lib WebHtop.Lib.Lines WebHtop.Server.Http

/-- What a call of recv gives on an open connection. -/
def RecvResult.Open : RecvResult → Prop
  | .data bytes => bytes ≠ [] ∧ bytes.length ≤ 2048
  | .interrupted => True
  | .wouldBlock => True
  | .failed => False

/-- The bytes of a row of calls. -/
def carried (recvs : List RecvResult) : Bytes :=
  recvs.flatMap fun
    | .data bytes => bytes
    | _ => []

/-- A read event of an open session: EAGAIN can only be the last of its calls. -/
structure ReadEvent where
  ready : Reactor.Ready
  recvs : List RecvResult
  sends : List SendResult
  pages : Pages
  reading : (ready.input || ready.readHup) = true
  quiet : ready.output = false ∧ ready.hup = false ∧ ready.error = false
  tries : recvs.length ≤ 8
  connected : ∀ result ∈ recvs, result.Open
  blocked : ∀ result ∈ recvs.dropLast, result ≠ .wouldBlock

/-- What Read makes of the bytes received so far. -/
def answer (pages : Pages) (text : Bytes) : Option Buffer :=
  if text.length > 8192 then some headerLimit
  else if [cr, lf, cr, lf] <:+: text then some (respond pages text)
  else none

theorem hasBlankLine_iff (text : Bytes) : hasBlankLine text = true ↔ [cr, lf, cr, lf] <:+: text := by
  induction text with
  | nil => simp [hasBlankLine]
  | cons c text ih =>
    rw [hasBlankLine, Bool.or_eq_true, ih, List.isPrefixOf_iff_prefix, List.infix_cons_iff]
    rfl

/-- The responses that a session has got. -/
def responses (s : Session) : List Buffer :=
  s.log.filterMap fun
    | (_, .enqueued buffer) => some buffer
    | _ => none

/-- The session has received the text and has not answered. -/
structure Waiting (text : Bytes) (s : Session) : Prop where
  streaming : s.streaming = false
  responding : s.responding = false
  request : s.request = text
  output : s.output = {}
  silent : responses s = []

/-- The session has answered the text, as it was at that time. -/
structure Answered (response : Buffer) (s : Session) : Prop where
  streaming : s.streaming = false
  responding : s.responding = true
  request : s.request = []
  output : s.output = { current := some response }
  once : responses s = [response]

/-- Nothing that Read may answer in this event goes over the budget. -/
def Affordable (m : Meter) (text : Bytes) (e : ReadEvent) : Prop :=
  ∀ bytes response, bytes <+: carried e.recvs → answer e.pages (text ++ bytes) = some response →
    m.queuedBytes + response.bytes.length ≤ kQueueBudget

theorem answer_ne_nil {pages : Pages} {text : Bytes} {response : Buffer}
    (h : answer pages text = some response) : response.bytes ≠ [] := by
  unfold answer at h
  split at h
  · obtain rfl := Option.some.inj h
    exact headerLimit_response.2
  · split at h
    · obtain rfl := Option.some.inj h
      exact route_ne_nil pages text
    · cases h

theorem answer_sequence {pages : Pages} {text : Bytes} {response : Buffer}
    (h : answer pages text = some response) : { response with sequence := none } = response := by
  unfold answer at h
  split at h
  · obtain rfl := Option.some.inj h
    rfl
  · split at h
    · obtain rfl := Option.some.inj h
      rfl
    · cases h

theorem enqueue_first {m : Meter} {s : Session} {response : Buffer} (houtput : s.output = {})
    (h : m.queuedBytes + response.bytes.length ≤ kQueueBudget) :
    ∃ m', m.enqueue s response = (true, s.pushed m.clock response, m') := by
  have hq : (m.charge s.output response).queuedBytes = m.queuedBytes + response.bytes.length := by
    rw [houtput]
    have hlt : m.queuedBytes + response.bytes.length < 2 ^ 64 := by
      rw [kQueueBudget_eq] at h
      omega
    have hsub : sub64 m.queuedBytes 0 = m.queuedBytes := sub64_eq (Nat.zero_le _)
    show add64 (sub64 m.queuedBytes 0) (response.bytes.length - 0 + 0) = _
    rw [hsub, add64_eq (by omega)]
    omega
  rcases Meter.enqueue_cases m s response with ⟨hover, -⟩ | ⟨-, he⟩
  · omega
  · exact ⟨_, he⟩

/-! ## One read event -/

theorem answer_eq (pages : Pages) (text : Bytes) :
    (if text.length > 8192 then some headerLimit
      else if hasBlankLine text then some (respond pages text) else none) = answer pages text := by
  simp only [answer, hasBlankLine_iff]

/-- The session behind a chunk that the loop has appended. -/
def Session.grown (s : Session) (clock : Nat) (chunk : Bytes) : Session :=
  { s with
    request := s.request ++ chunk
    log := s.log ++ [(clock, .received chunk)] }

theorem waiting_grown {text chunk : Bytes} {s : Session} (h : Waiting text s) (clock : Nat) :
    Waiting (text ++ chunk) (s.grown clock chunk) where
  streaming := h.streaming
  responding := h.responding
  request := congrArg (· ++ chunk) h.request
  output := h.output
  silent := by
    have hsilent := h.silent
    rw [responses] at hsilent ⊢
    rw [Session.grown, List.filterMap_append, hsilent]
    rfl

theorem answered_pushed {text : Bytes} {s : Session} (h : Waiting text s) (clock : Nat)
    (response : Buffer) :
    Answered response ({ s with responding := true, request := [] }.pushed clock response) where
  streaming := h.streaming
  responding := rfl
  request := rfl
  output := by
    show (s.output.push response).2 = _
    rw [h.output]
    rfl
  once := by
    have hsilent := h.silent
    rw [responses] at hsilent ⊢
    rw [Session.pushed, List.filterMap_append, hsilent]
    rfl

/-- The loop over the calls of recv answers the first text that has an answer. -/
theorem readLoop_spec {pages : Pages} {recvs : List RecvResult}
    (hopen : ∀ result ∈ recvs, result.Open)
    (hblocked : ∀ result ∈ recvs.dropLast, result ≠ .wouldBlock) {tries : Nat}
    (htries : recvs.length ≤ tries) {text : Bytes} {s : Session} {m : Meter}
    (hw : Waiting text s) (hnone : answer pages text = none)
    (hbudget : ∀ bytes response, bytes <+: carried recvs →
      answer pages (text ++ bytes) = some response →
        m.queuedBytes + response.bytes.length ≤ kQueueBudget) :
    (∃ s', readLoop headerLimit (respond pages) tries recvs s m = (true, s', m) ∧
      Waiting (text ++ carried recvs) s' ∧ answer pages (text ++ carried recvs) = none) ∨
    ∃ s' m' bytes response, readLoop headerLimit (respond pages) tries recvs s m = (true, s', m') ∧
      bytes <+: carried recvs ∧ answer pages (text ++ bytes) = some response ∧
      Answered response s' := by
  induction recvs generalizing tries text s with
  | nil =>
    refine Or.inl ⟨s, ?_, ?_, ?_⟩
    · cases tries <;> rfl
    · rwa [carried, List.flatMap_nil, List.append_nil]
    · rwa [carried, List.flatMap_nil, List.append_nil]
  | cons result recvs ih =>
    obtain ⟨tries, rfl⟩ : ∃ n, tries = n + 1 := ⟨tries - 1, by rw [List.length_cons] at htries; omega⟩
    have hrest : ∀ r ∈ recvs, r.Open := fun r hr => hopen r (List.mem_cons_of_mem result hr)
    have hblocked' : ∀ r ∈ recvs.dropLast, r ≠ .wouldBlock := by
      intro r hr
      refine hblocked r ?_
      cases recvs with
      | nil => cases hr
      | cons x xs => exact List.mem_cons_of_mem _ hr
    have htries' : recvs.length ≤ tries := by
      rw [List.length_cons] at htries
      omega
    cases result with
    | failed => exact (hopen _ List.mem_cons_self).elim
    | interrupted => exact ih hrest hblocked' htries' hw hnone hbudget
    | wouldBlock =>
      have hlast : recvs = [] := by
        by_contra hne
        obtain ⟨x, xs, rfl⟩ := List.exists_cons_of_ne_nil hne
        exact hblocked .wouldBlock List.mem_cons_self rfl
      subst hlast
      refine Or.inl ⟨s, rfl, ?_, ?_⟩
      · rwa [carried, List.flatMap_cons, List.flatMap_nil, List.append_nil, List.append_nil]
      · rwa [carried, List.flatMap_cons, List.flatMap_nil, List.append_nil, List.append_nil]
    | data chunk =>
      obtain ⟨hne, hlength⟩ := hopen _ List.mem_cons_self
      obtain ⟨c, cs, rfl⟩ := List.exists_cons_of_ne_nil hne
      have htake : (c :: cs).take 2048 = c :: cs := List.take_of_length_le hlength
      have hcarried : carried (.data (c :: cs) :: recvs) = c :: cs ++ carried recvs := rfl
      have hgrown : Waiting (text ++ (c :: cs)) (s.grown m.clock (c :: cs)) :=
        waiting_grown hw m.clock
      have hstep : readLoop headerLimit (respond pages) (tries + 1) (.data (c :: cs) :: recvs) s m =
          (answer pages (text ++ (c :: cs))).elim
            (readLoop headerLimit (respond pages) tries recvs (s.grown m.clock (c :: cs)) m)
            (m.enqueue { s.grown m.clock (c :: cs) with responding := true, request := [] }) := by
        rw [readLoop, htake, ← hgrown.request]
        simp only [Session.grown, answer_eq]
        cases hanswer : answer pages (s.request ++ c :: cs) with
        | none => rfl
        | some response =>
          simp only [Option.elim_some]
          rw [if_neg (answer_ne_nil hanswer), answer_sequence hanswer]
      rw [hstep, hcarried]
      cases hanswer : answer pages (text ++ (c :: cs)) with
      | none =>
        have hbudget' : ∀ bytes response, bytes <+: carried recvs →
            answer pages (text ++ (c :: cs) ++ bytes) = some response →
              m.queuedBytes + response.bytes.length ≤ kQueueBudget := by
          intro bytes response hbytes hanswer'
          refine hbudget (c :: cs ++ bytes) response ?_ (by rwa [← List.append_assoc])
          rw [hcarried]
          exact (List.prefix_append_right_inj _).mpr hbytes
        rcases ih hrest hblocked' htries' hgrown hanswer hbudget' with
          ⟨s', hread, hw', hnone'⟩ | ⟨s', m', bytes, response, hread, hbytes, hanswer', hs'⟩
        · exact Or.inl ⟨s', hread, by rwa [← List.append_assoc], by rwa [← List.append_assoc]⟩
        · refine Or.inr ⟨s', m', c :: cs ++ bytes, response, hread, ?_, ?_, hs'⟩
          · exact (List.prefix_append_right_inj _).mpr hbytes
          · rwa [← List.append_assoc]
      | some response =>
        have hfits := hbudget (c :: cs) response (List.prefix_append _ _) hanswer
        obtain ⟨m', hm'⟩ := enqueue_first
          (s := { s.grown m.clock (c :: cs) with responding := true, request := [] }) hgrown.output hfits
        exact Or.inr ⟨_, m', c :: cs, response, hm', List.prefix_append _ _, hanswer,
          answered_pushed hgrown m.clock response⟩

/-! ## The session over events -/

/-- A read event of the session, or anything else: the reactor is then another one with the same
session. -/
inductive Serving where
  | read (e : ReadEvent)
  | elsewhere (r : Reactor)

/-- What reaches the session. -/
def received (turns : List Serving) : Bytes :=
  turns.flatMap fun
    | .read e => carried e.recvs
    | .elsewhere _ => []

/-- A turn of the reactor, within the queue budget and without a deadline for the session. -/
inductive Serves (token : Nat) (r : Reactor) : Serving → Reactor → Prop
  | read (e : ReadEvent)
      (hbudget : ∀ s, r.sessions.get token = some s → s.responding = false →
        Affordable r.toMeter s.request e) :
      Serves token r (.read e)
        (r.handle headerLimit (respond e.pages) token e.ready e.recvs e.sends)
  | elsewhere (r' : Reactor) (h : r'.sessions.get token = r.sessions.get token) :
      Serves token r (.elsewhere r') r'

theorem answer_eq_none_iff {pages : Pages} {text : Bytes} :
    answer pages text = none ↔ text.length ≤ 8192 ∧ ¬ [cr, lf, cr, lf] <:+: text := by
  unfold answer
  split_ifs with hlong hblank
  · simp [hlong]
  · simp [hblank]
  · simp only [hblank, not_false_eq_true, and_true, true_iff]
    omega

variable {token : Nat} {r r' : Reactor} {s : Session}

/-- A read event of a session that is still waiting. -/
theorem handle_waiting {e : ReadEvent} {text : Bytes} {s' : Session} {m' : Meter}
    (hs : r.sessions.get token = some s) (hw : Waiting text s)
    (hread : readLoop headerLimit (respond e.pages) 8 e.recvs s r.toMeter = (true, s', m')) :
    (r.handle headerLimit (respond e.pages) token e.ready e.recvs e.sends).sessions.get token =
      some s' := by
  obtain ⟨houtput, hhup, herror⟩ := e.quiet
  have hreading := e.reading
  rw [Reactor.handle, hs]
  simp only [herror, houtput, hhup, hw.streaming, hw.responding, Bool.not_false, Bool.true_and,
    Bool.or_false, hreading, if_true, hread, Bool.and_false, Bool.false_eq_true, if_false]
  exact Table.get_set_self (Table.mem_keys_of_get hs)

/-- A read event of a session that has answered. -/
theorem handle_answered {e : ReadEvent} {response : Buffer}
    (hs : r.sessions.get token = some s) (ha : Answered response s) :
    (r.handle headerLimit (respond e.pages) token e.ready e.recvs e.sends).sessions.get token =
      some s := by
  obtain ⟨houtput, hhup, herror⟩ := e.quiet
  rw [Reactor.handle, hs]
  simp only [herror, houtput, hhup, ha.streaming, ha.responding, Bool.not_true, Bool.not_false,
    Bool.and_false, Bool.false_and, Bool.true_and, Bool.false_eq_true, if_true, if_false]
  exact Table.get_set_self (Table.mem_keys_of_get hs)

/-- What is known of the session after some turns. -/
inductive Reached (turns : List Serving) (s : Session) : Prop
  | waiting (hw : Waiting (received turns) s) (hlength : (received turns).length ≤ 8192)
      (hblank : ¬ [cr, lf, cr, lf] <:+: received turns)
  | answered (e : ReadEvent) (he : .read e ∈ turns) (text : Bytes) (htext : text <+: received turns)
      (response : Buffer) (hresponse : answer e.pages text = some response)
      (ha : Answered response s)

theorem received_snoc (turns : List Serving) (turn : Serving) :
    received (turns ++ [turn]) = received turns ++ received [turn] := List.flatMap_append

theorem Reached.step {turns : List Serving} {turn : Serving} (h : Reached turns s)
    (hs : r.sessions.get token = some s) (hstep : Serves token r turn r') :
    ∃ s', r'.sessions.get token = some s' ∧ Reached (turns ++ [turn]) s' := by
  cases hstep with
  | elsewhere _ hsame =>
    refine ⟨s, hsame.trans hs, ?_⟩
    have hreceived : received (turns ++ [.elsewhere r']) = received turns := by
      rw [received_snoc]
      exact List.append_nil _
    cases h with
    | waiting hw hlength hblank =>
      rw [← hreceived] at hw hlength hblank
      exact .waiting hw hlength hblank
    | answered e he text htext response hresponse ha =>
      rw [← hreceived] at htext
      exact .answered e (List.mem_append_left _ he) text htext response hresponse ha
  | read e hbudget =>
    have hreceived : received (turns ++ [.read e]) = received turns ++ carried e.recvs := by
      rw [received_snoc]
      exact congrArg (received turns ++ ·) (List.append_nil _)
    cases h with
    | answered e' he text htext response hresponse ha =>
      refine ⟨s, handle_answered hs ha, ?_⟩
      refine .answered e' (List.mem_append_left _ he) text ?_ response hresponse ha
      exact htext.trans (hreceived ▸ List.prefix_append _ _)
    | waiting hw hlength hblank =>
      have hfits := hbudget s hs hw.responding
      rw [hw.request] at hfits
      rcases readLoop_spec e.connected e.blocked e.tries hw
        (answer_eq_none_iff.mpr ⟨hlength, hblank⟩) hfits with
        ⟨s', hread, hw', hnone⟩ | ⟨s', m', bytes, response, hread, hbytes, hanswer, ha⟩
      · refine ⟨s', handle_waiting hs hw hread, ?_⟩
        rw [← hreceived] at hw' hnone
        obtain ⟨hlength', hblank'⟩ := answer_eq_none_iff.mp hnone
        exact .waiting hw' hlength' hblank'
      · refine ⟨s', handle_waiting hs hw hread, ?_⟩
        refine .answered e (by simp) _ ?_ response hanswer ha
        rw [hreceived]
        exact (List.prefix_append_right_inj _).mpr hbytes

theorem Reached.run {turns : List Serving} (hs : r.sessions.get token = some s)
    (hfresh : Waiting [] s) (hrun : Run (Serves token) r turns r') :
    ∃ s', r'.sessions.get token = some s' ∧ Reached turns s' := by
  induction hrun with
  | nil =>
    refine ⟨s, hs, .waiting hfresh (by simp [received]) ?_⟩
    simp [received]
  | snoc _ hstep ih =>
    obtain ⟨s', hs', hreached⟩ := ih
    exact hreached.step hs' hstep

/-- How the bytes of a request are cut over calls and events plays no part: the session answers the
limit, or Route of the whole request, or it stays open and holds the bytes. -/
theorem fragments_agree {turns : List Serving} (hs : r.sessions.get token = some s)
    (hfresh : Waiting [] s) (hrun : Run (Serves token) r turns r')
    (hends : ∀ before after, received turns = before ++ [cr, lf, cr, lf] ++ after → after = []) :
    ∃ s', r'.sessions.get token = some s' ∧ s'.request.length ≤ 8192 ∧
      if 8192 < (received turns).length then Answered headerLimit s'
      else if [cr, lf, cr, lf] <:+: received turns then
        ∃ e, .read e ∈ turns ∧ Answered (respond e.pages (received turns)) s'
      else Waiting (received turns) s' := by
  obtain ⟨s', hs', hreached⟩ := Reached.run hs hfresh hrun
  refine ⟨s', hs', ?_⟩
  cases hreached with
  | waiting hw hlength hblank =>
    refine ⟨by rw [hw.request]; exact hlength, ?_⟩
    rw [if_neg (by omega), if_neg hblank]
    exact hw
  | answered e he text htext response hresponse ha =>
    refine ⟨by simp [ha.request], ?_⟩
    rw [answer] at hresponse
    split at hresponse
    · rename_i hlong
      obtain rfl := Option.some.inj hresponse
      rw [if_pos (lt_of_lt_of_le hlong htext.length_le)]
      exact ha
    · rename_i hshort
      split at hresponse
      · rename_i hblank
        obtain rfl := Option.some.inj hresponse
        obtain ⟨rest, hrest⟩ := htext
        obtain ⟨before, after, rfl⟩ := hblank
        have hnil : after ++ rest = [] := hends before (after ++ rest) (by simp [← hrest])
        obtain ⟨rfl, rfl⟩ := List.append_eq_nil_iff.mp hnil
        rw [List.append_nil] at hrest
        rw [← hrest, if_neg hshort, if_pos ⟨before, [], rfl⟩]
        exact ⟨e, he, ha⟩
      · cases hresponse

/-! ## A request in two pieces -/

/-- No answer is long when the pages are not. -/
theorem affordable_small {e : ReadEvent} {n : Nat} (hn : n + 400 ≤ kQueueBudget)
    (hpages : e.pages.Within n) {m : Meter} (hm : m.queuedBytes = 0) (text : Bytes) :
    Affordable m text e := by
  intro bytes response _ hanswer
  rw [kQueueBudget_eq] at hn ⊢
  rw [answer] at hanswer
  split at hanswer
  · obtain rfl := Option.some.inj hanswer
    have hlimit := headerLimit_response.1
    show m.queuedBytes + (httpResponse 431 _).length ≤ _
    omega
  · split at hanswer
    · obtain rfl := Option.some.inj hanswer
      have hroute := (route_response (by omega) hpages (text ++ bytes)).1
      show m.queuedBytes + (route e.pages (text ++ bytes)).length ≤ _
      omega
    · cases hanswer

/-- Before the first publication. -/
def noPages : Pages :=
  { latest := none, diagnostics := ⟨[], by decide⟩, exporter := ⟨[], by decide⟩ }

/-- An interrupted call and a piece. -/
def piece (text : String) (h : lit text ≠ [] ∧ (lit text).length ≤ 2048) : ReadEvent where
  ready := { input := true }
  recvs := [.interrupted, .data (lit text), .wouldBlock]
  sends := []
  pages := noPages
  reading := rfl
  quiet := ⟨rfl, rfl, rfl⟩
  tries := by simp
  connected := by
    simp only [List.forall_mem_cons]
    exact ⟨trivial, h, trivial, List.forall_mem_nil _⟩
  blocked := by
    simp only [List.dropLast_cons_cons, List.dropLast_singleton, List.forall_mem_cons]
    exact ⟨by simp, by simp, List.forall_mem_nil _⟩

/-- The reactor with one session that has sent nothing yet. -/
def admitted : Reactor := { sessions := [(16, { fd := 5 })] }

/-- The empty line is cut in two. -/
def halves : List Serving :=
  [.read (piece "GET /health HTTP/1.0\r\n\r" (by decide)), .read (piece "\n" (by decide))]

theorem fragments_agree_cut :
    received halves = lit "GET /health HTTP/1.0\r\n\r\n" ∧
      ∃ (r' : Reactor) (s' : Session), Run (Serves 16) admitted halves r' ∧
        r'.sessions.get 16 = some s' ∧ s'.request.length ≤ 8192 ∧
        Answered (respond noPages (lit "GET /health HTTP/1.0\r\n\r\n")) s' := by
  have hpages : noPages.Within 0 := ⟨by decide, by decide, fun latest hl => by cases hl⟩
  have hsmall : 0 + 400 ≤ kQueueBudget := by
    rw [kQueueBudget_eq]
    omega
  let e := piece "GET /health HTTP/1.0\r\n\r" (by decide)
  let e' := piece "\n" (by decide)
  have hfirst : Serves 16 admitted (.read e) _ := .read e fun s _ _ =>
    affordable_small hsmall hpages rfl s.request
  have hmeter : (admitted.handle headerLimit (respond e.pages) 16 e.ready e.recvs e.sends).queuedBytes
      = 0 := rfl
  have hsecond : Serves 16 _ (.read e') _ := .read e' fun s _ _ =>
    affordable_small hsmall hpages hmeter s.request
  have hrun : Run (Serves 16) admitted halves _ := .snoc (Run.single hfirst) hsecond
  have htext : received halves = lit "GET /health HTTP/1.0\r\n\r\n" := rfl
  have hends : ∀ before after,
      received halves = before ++ [cr, lf, cr, lf] ++ after → after = [] := by
    intro before after heq
    have hlength := congrArg List.length heq
    obtain ⟨n, hn, hle⟩ : ∃ n, find [cr, lf, cr, lf] (before ++ [cr, lf, cr, lf] ++ after) =
        some n ∧ n ≤ before.length := find_le
    have hfound : find [cr, lf, cr, lf] (lit "GET /health HTTP/1.0\r\n\r\n") = some 20 := rfl
    rw [← heq, htext, hfound] at hn
    obtain rfl := Option.some.inj hn
    have htotal : (received halves).length = 24 := rfl
    simp only [htotal, List.length_append, List.length_cons, List.length_nil] at hlength
    exact List.length_eq_zero_iff.mp (by omega)
  have hfresh : Waiting [] ({ fd := 5 } : Session) := ⟨rfl, rfl, rfl, rfl, rfl⟩
  obtain ⟨s', hs', hrequest, hanswer⟩ := fragments_agree (s := { fd := 5 }) rfl hfresh hrun hends
  refine ⟨htext, _, s', hrun, hs', hrequest, ?_⟩
  have hblank : [cr, lf, cr, lf] <:+: received halves := ⟨lit "GET /health HTTP/1.0", [], rfl⟩
  rw [if_neg (by decide), if_pos hblank] at hanswer
  obtain ⟨e'', he'', ha⟩ := hanswer
  have hno : e''.pages = noPages := by
    rcases List.mem_cons.mp he'' with h | h
    · exact congrArg ReadEvent.pages (Serving.read.inj h)
    · exact congrArg ReadEvent.pages (Serving.read.inj (List.mem_singleton.mp h))
  rw [hno, htext] at ha
  exact ha

end WebHtop.Server
