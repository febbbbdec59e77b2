import WebHtop.Client.HttpProbe
import WebHtop.Server.Provenance

/-!
# What the probe reports

The probe of a client against the server that it asks, through any calls of Tick and Handle, with
connections that fail, are cut off or run into the deadline. Whatever value it holds is a whole
document of `/diagnostics`, of one state of the run of that server.
-/

namespace WebHtop.Client

open WebHtop.Lib WebHtop.Lib.Lines WebHtop.Common WebHtop.Server WebHtop.Server.Http

variable {D : Type} [Double D]

/-! ## Values -/

namespace HttpProbe

/-- A call keeps the value, or takes the one in the text that it leaves behind. -/
def Takes (value : Option (JSONValue D)) (q : HttpProbe D) : Prop :=
  q.value = value ∨ ∃ v, q.value = some v ∧ document q.input = some v

variable {p : HttpProbe D}

theorem finish_takes (p : HttpProbe D) (success : Bool) (clock : Closing) :
    Takes p.value (p.finish success clock) := by
  simp only [finish]
  split
  · rename_i v hv
    refine .inr ⟨v, rfl, ?_⟩
    cases success with
    | false => cases hv
    | true => exact hv
  · exact .inl rfl

theorem tick_takes (p : HttpProbe D) (now : Int) (connect : Address → ConnectResult) (clock : Closing) :
    Takes p.value (p.tick now connect clock) := by
  unfold tick
  split
  · split
    · exact finish_takes p false clock
    · exact .inl rfl
  · split
    · exact .inl rfl
    · simp only
      split
      · exact finish_takes _ false clock
      · exact .inl rfl
      · exact .inl rfl

theorem receiveLoop_takes (clock : Closing) (tries : Nat) (recvs : List RecvResult) (p : HttpProbe D) :
    Takes p.value (receiveLoop clock tries recvs p) := by
  induction recvs generalizing tries p with
  | nil => cases tries <;> exact .inl rfl
  | cons result results ih =>
      cases tries with
      | zero => exact .inl rfl
      | succ tries =>
          match result with
          | .data [] => exact finish_takes p true clock
          | .data (b :: bytes) =>
              simp only [receiveLoop]
              split
              · exact finish_takes _ false clock
              · exact ih tries { p with input := p.input ++ (b :: bytes).take 4096 }
          | .interrupted => exact ih tries p
          | .wouldBlock => exact .inl rfl
          | .failed => exact finish_takes p false clock

theorem receive_takes (p : HttpProbe D) (events : Polled) (recvs : List RecvResult) (clock : Closing) :
    Takes p.value (p.receive events recvs clock) := by
  unfold receive
  split
  · exact receiveLoop_takes clock 16 recvs p
  · exact .inl rfl

theorem handle_takes (p : HttpProbe D) (events : Polled) (checkConnected : Bool) (sent : SendResult)
    (recvs : List RecvResult) (clock : Closing) :
    Takes p.value (p.handle events checkConnected sent recvs clock) := by
  unfold handle
  split
  · exact .inl rfl
  split
  · exact finish_takes p false clock
  split
  · exact finish_takes p false clock
  unfold transfer
  split
  · cases sent with
    | interrupted => exact .inl rfl
    | wouldBlock => exact .inl rfl
    | failed => exact finish_takes { p with connecting := false } false clock
    | accepted size => exact receive_takes _ events recvs clock
  · exact receive_takes { p with connecting := false } events recvs clock

theorem step_takes (p : HttpProbe D) (event : Event) : Takes p.value (p.step event) := by
  cases event with
  | tick now connect clock => exact tick_takes p now connect clock
  | handle events checkConnected sent recvs clock =>
      exact handle_takes p events checkConnected sent recvs clock

/-- A value comes from a text that the probe has held. -/
theorem value_run (hp : p.value = none) (events : List Event) {v : JSONValue D}
    (hv : (events.foldl step p).value = some v) :
    ∃ front, front <+: events ∧ document (front.foldl step p).input = some v := by
  induction events using List.reverseRecOn with
  | nil =>
      rw [List.foldl_nil, hp] at hv
      cases hv
  | append_singleton events event ih =>
      have htakes := step_takes (events.foldl step p) event
      rw [List.foldl_append, List.foldl_cons, List.foldl_nil] at hv
      rcases htakes with hkept | ⟨w, hw, hdocument⟩
      · obtain ⟨front, hfront, hdocument⟩ := ih (hkept.symm.trans hv)
        exact ⟨front, hfront.trans (List.prefix_append _ _), hdocument⟩
      · refine ⟨events ++ [event], List.prefix_refl _, ?_⟩
        rw [List.foldl_append, List.foldl_cons, List.foldl_nil, hdocument, ← hw, hv]

end HttpProbe

/-! ## Answers -/

/-- The server answers the probe with its diagnostics. -/
theorem answer_probe (pages : Pages) :
    (answer pages kProbeRequest).map Buffer.bytes = some (httpResponse 200 pages.diagnostics.val) := by
  have hblank : [cr, lf, cr, lf] <:+: kProbeRequest := by
    rw [← hasBlankLine_iff]
    decide +kernel
  have hrequest : parseHttpRequest kProbeRequest = { status := 200, target := lit "/diagnostics" } := by
    decide +kernel
  have hlength : ¬ kProbeRequest.length > 8192 := by decide +kernel
  rw [answer, if_neg hlength, if_pos hblank]
  refine congrArg some ?_
  show route pages kProbeRequest = _
  simp only [route, hrequest]
  rfl

/-- The server waits for the whole request of the probe. -/
theorem whole_probe {pages : Pages} {received : Bytes} {response : Buffer}
    (hreceived : received <+: kProbeRequest) (h : answer pages received = some response) :
    received = kProbeRequest := by
  have hwaits : ∀ n < kProbeRequest.length, (kProbeRequest.take n).length ≤ 8192 ∧
      hasBlankLine (kProbeRequest.take n) = false := by decide +kernel
  by_contra hcut
  have hshort : received.length < kProbeRequest.length :=
    lt_of_le_of_ne hreceived.length_le fun he => hcut (hreceived.eq_of_length he)
  obtain ⟨hlength, hblank⟩ := hwaits received.length hshort
  rw [← List.prefix_iff_eq_take.mp hreceived] at hlength hblank
  have hnone : answer pages received = none := answer_eq_none_iff.mpr
    ⟨hlength, fun hinfix => absurd ((hasBlankLine_iff received).mpr hinfix) (by simp [hblank])⟩
  rw [hnone] at h
  cases h

variable [LawfulDouble D]

/-- What the probe takes from a beginning of the answer is the document. -/
theorem document_answer {config : ReactorConfig} {bindAddress : BindAddress}
    {started : Collectors.TimePoint} {r : Reactor} {latest : Option (PublishedSnapshot D)}
    {readings : Server.Readings} {text input : Bytes} {v : JSONValue D}
    (htext : diagnostics config bindAddress started r latest readings = some text)
    (hinput : input <+: httpResponse 200 text) (hv : HttpProbe.document input = some v) :
    parse text = some v := by
  obtain ⟨rest, hrest⟩ := hinput
  by_cases hnil : rest = []
  · rw [hnil, List.append_nil] at hrest
    rw [hrest, HttpProbe.document_response] at hv
    exact Option.eq_some_of_filter_eq_some hv
  · rw [HttpProbe.document_truncated htext hrest.symm hnil] at hv
    cases hv

/-! ## Runs -/

variable {launch : Launch} {s : ServerApp D} {next : Collectors.TimePoint}
  {httpListener streamListener signalFd notificationFd timer : Nat} {es : List (ServerApp.Event D)}
  {p : HttpProbe D} {events : List HttpProbe.Event}

/-- The text that the probe holds is a beginning of what a session has been sent that has received a
beginning of the request of the probe and nothing else. -/
def Asked (s : ServerApp D) (p : HttpProbe D) : Prop :=
  p.input = [] ∨ ∃ e ∈ s.reactor.sessions ++ s.reactor.closed, e.2.streaming = false ∧
    receivedOf e.2.log <+: kProbeRequest ∧ p.input <+: sentOf e.2.log

/-- A beginning of an answer with diagnostics, and not the whole of it. -/
def CutShort (launch : Launch) (D : Type) [Double D] (input : Bytes) : Prop :=
  ∃ (r : Reactor) (latest : Option (PublishedSnapshot D)) (readings : Server.Readings) (text rest : Bytes),
    diagnostics launch.config launch.bindAddress launch.started r latest readings = some text ∧
    httpResponse 200 text = input ++ rest ∧ rest ≠ []

/-- What was cut short holds no document to take. -/
theorem HttpProbe.step_cutShort {q : HttpProbe D} {event : HttpProbe.Event}
    (h : CutShort launch D (q.step event).input) : (q.step event).value = q.value := by
  rcases step_takes q event with hkept | ⟨w, -, hdocument⟩
  · exact hkept
  · obtain ⟨r, latest, readings, text, rest, htext, hresponse, hrest⟩ := h
    rw [document_truncated htext hresponse hrest] at hdocument
    cases hdocument

/-- In every run of a server and of a probe that asks it, whatever value the probe holds is what the
parser reads in the diagnostics of one state of the run, with the counters of the run up to that state.
A call that leaves the probe with a response that was cut short does not change the value. -/
theorem probe_reports [PlainNotation D]
    (hr : Run (ServerApp.Step launch)
      (ServerApp.init next httpListener streamListener signalFd notificationFd timer) es s)
    (hes : es.length < 2 ^ 64) (hp : p.value = none)
    (hasked : ∀ front, front <+: events → Asked s (front.foldl HttpProbe.step p)) :
    (∀ v, (events.foldl HttpProbe.step p).value = some v →
      ∃ es' t readings text, es' <+: es ∧
        Run (ServerApp.Step launch)
          (ServerApp.init next httpListener streamListener signalFd notificationFd timer) es' t ∧
        diagnostics launch.config launch.bindAddress launch.started t.reactor
          (t.latest.map Subtype.val) readings = some text ∧
        parse text = some v ∧
        ∀ e ∈ totals (ServerApp.journal launch
            (ServerApp.init next httpListener streamListener signalFd notificationFd timer) es') t.reactor,
          Access.uint v e.1 = some (UInt64.ofNat e.2)) ∧
      ∀ front event, front ++ [event] <+: events →
        CutShort launch D ((front ++ [event]).foldl HttpProbe.step p).input →
        ((front ++ [event]).foldl HttpProbe.step p).value = (front.foldl HttpProbe.step p).value := by
  constructor
  · intro v hv
    obtain ⟨front, hfront, hdocument⟩ := HttpProbe.value_run hp events hv
    have hnotEmpty : (front.foldl HttpProbe.step p).input ≠ [] := by
      intro hempty
      rw [hempty] at hdocument
      cases hdocument
    obtain ⟨e, he, hrequest, hreceived, hinput⟩ := (hasked front hfront).resolve_left hnotEmpty
    rcases ServerApp.answers_run (ServerApp.unwrapped_run hr hes) he hrequest with
      ⟨hnone, -⟩ | ⟨es', t, readings, response, hbegins, ht, hanswer, hsent⟩
    · rw [hnone, List.prefix_nil] at hinput
      exact absurd hinput hnotEmpty
    · rw [whole_probe hreceived hanswer] at hanswer
      have hresponse := answer_probe (t.pages launch readings)
      rw [hanswer] at hresponse
      have htext : diagnostics launch.config launch.bindAddress launch.started t.reactor
          (t.latest.map Subtype.val) readings = some (t.pages launch readings).diagnostics.val :=
        (Option.some_get _).symm
      have hwhole := hinput.trans hsent
      rw [Option.some.inj hresponse] at hwhole
      have hparse := document_answer htext hwhole hdocument
      obtain ⟨real, -, hread⟩ := parse_diagnostics htext
      refine ⟨es', t, readings, _, hbegins, ht.of_where, htext, hparse, ?_⟩
      rw [Option.some.inj (hparse.symm.trans hread)]
      exact uint_totals (ServerApp.ledger_run ht.of_where) launch.config launch.bindAddress
        launch.started _ readings real
  · intro front event _ hcut
    rw [List.foldl_append, List.foldl_cons, List.foldl_nil] at hcut ⊢
    exact HttpProbe.step_cutShort hcut

/-- A request session asks for the diagnostics and takes the whole answer, which closes it. -/
def asking : List (ServerApp.Event Integral) :=
  [.accept false (.descriptor 9),
    .session 16 { input := true } [.data kProbeRequest] [] System.quiet,
    .session 16 { output := true } [] [.accepted 100000 0] System.quiet]

/-- What the session has been sent. -/
def answered_ : Bytes :=
  ((follow (ServerApp.step ServerApp.local_) ServerApp.start asking).bind fun s =>
    s.reactor.closed.head?.map fun e => sentOf e.2.log).getD []

/-- The probe connects, asks, and reads until the connection ends. -/
def connection (now : Int) (response : Bytes) : List HttpProbe.Event :=
  let clock : HttpProbe.Closing := { updated := 0, closed := 0 }
  [.tick now (fun _ => .connected 5) clock,
    .handle { pollout := true } true (.accepted 4096) [] clock,
    .handle { pollin := true } true .wouldBlock [.data response, .data []] clock]

/-- The first connection ends after 200 bytes, the second gives the whole answer. -/
def probing : List HttpProbe.Event :=
  connection 0 (answered_.take 200) ++ connection 2000000000 answered_

def prober : HttpProbe Integral := { addresses := [⟨2, []⟩] }

theorem probe_reports_asking : ∃ s v,
    follow (ServerApp.step ServerApp.local_) ServerApp.start asking = some s ∧
    ((connection 0 (answered_.take 200)).foldl HttpProbe.step prober).value = none ∧
    (probing.foldl HttpProbe.step prober).value = some v ∧
    ∃ es' t readings text, es' <+: asking ∧
      Run (ServerApp.Step ServerApp.local_) ServerApp.start es' t ∧
      diagnostics {} System.loopback ServerApp.local_.started t.reactor
        (t.latest.map Subtype.val) readings = some text ∧
      parse text = some v ∧
      ∀ e ∈ totals (ServerApp.journal ServerApp.local_ ServerApp.start es') t.reactor,
        Access.uint v e.1 = some (UInt64.ofNat e.2) := by
  have hsome : ((follow (ServerApp.step ServerApp.local_) ServerApp.start asking).map fun s =>
      s.reactor.closed.map fun e => (e.1, e.2.streaming, receivedOf e.2.log, sentOf e.2.log)) =
      some [(16, false, kProbeRequest, answered_)] := by decide +kernel
  obtain ⟨s, hs, hsessions⟩ := Option.map_eq_some_iff.mp hsome
  obtain ⟨⟨n, x⟩, l, hl, hx, hnil⟩ := List.map_eq_cons_iff.mp hsessions
  obtain rfl := List.map_eq_nil_iff.mp hnil
  simp only [Prod.mk.injEq] at hx
  obtain ⟨-, hrequest, hreceived, hsent⟩ := hx
  have hinputs : ∀ n ≤ probing.length,
      ((probing.take n).foldl HttpProbe.step prober).input <+: answered_ := by decide +kernel
  have hasked : ∀ front, front <+: probing → Asked s (front.foldl HttpProbe.step prober) := by
    intro front hfront
    have hinput := hinputs front.length hfront.length_le
    rw [← List.prefix_iff_eq_take.mp hfront] at hinput
    refine .inr ⟨(n, x), by simp [hl], hrequest, ?_, ?_⟩
    · rw [hreceived]
    · rw [hsent]
      exact hinput
  -- The answer is the document of the state in which the request was read.
  have hanswer : ((follow (ServerApp.step ServerApp.local_) ServerApp.start (asking.take 1)).bind fun t =>
      (diagnostics {} System.loopback ServerApp.local_.started t.reactor
        (t.latest.map Subtype.val) System.quiet).map (httpResponse 200)) = some answered_ := by
    decide +kernel
  obtain ⟨t, -, htext⟩ := Option.bind_eq_some_iff.mp hanswer
  obtain ⟨text, htext, hresponse⟩ := Option.map_eq_some_iff.mp htext
  have hcut : CutShort ServerApp.local_ Integral (answered_.take 200) :=
    ⟨_, _, _, text, answered_.drop 200, htext, hresponse.trans (List.take_append_drop _ _).symm,
      by decide +kernel⟩
  have hvalue : (probing.foldl HttpProbe.step prober).value.isSome = true := by decide +kernel
  obtain ⟨v, hv⟩ := Option.isSome_iff_exists.mp hvalue
  obtain ⟨hwhole, hkept⟩ := probe_reports (run_of_follow hs) (by decide)
    (show prober.value = none from rfl) hasked
  have hheld : ((connection 0 (answered_.take 200)).foldl HttpProbe.step prober).input =
      answered_.take 200 := by decide +kernel
  have hnone := hkept ((connection 0 (answered_.take 200)).take 2) _
    (List.prefix_append (connection 0 (answered_.take 200)) _) (by rw [← hheld] at hcut; exact hcut)
  exact ⟨s, v, hs, hnone.trans (by decide +kernel), hv, hwhole v hv⟩

end WebHtop.Client
