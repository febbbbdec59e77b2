import WebHtop.Client.StreamConnection
import WebHtop.Common.Json.Truncation
import WebHtop.Lib.Lines
import WebHtop.Lib.Runs
import WebHtop.Server.Http.HttpRequest

/-!
# The client's diagnostics probe

`HttpProbe` of client/net/stream_connection.cpp against the responses of the server. The probe reads
until the end of the stream and takes no notice of Content-Length, so what protects its value is
that a response that is cut short holds no JSON object.
-/

namespace WebHtop.Client

open WebHtop.Lib WebHtop.Lib.Lines WebHtop.Common WebHtop.Server.Http

variable {D : Type} [Double D]

/-- `kProbeRequest`. -/
def kProbeRequest : Bytes :=
  lit "GET /diagnostics HTTP/1.1\r\nHost: web-htop\r\nConnection: close\r\n\r\n"

/-- Time points are in nanoseconds. -/
structure HttpProbe (D : Type) where
  addresses : List Address
  socket : Option Nat := none
  connecting : Bool := false
  writing : Bool := false
  sent : Nat := 0
  addressIndex : UInt64 := 0
  input : Bytes := []
  value : Option (JSONValue D) := none
  retry : Int := 0
  deadline : Int := 0
  updated : Int := 0

namespace HttpProbe

/-- The readings of the clock in Finish. -/
structure Closing where
  updated : Int
  closed : Int

inductive SendResult where
  | accepted (size : Nat)
  | interrupted
  | wouldBlock
  | failed

/-- Data without bytes is the end of the stream. -/
inductive RecvResult where
  | data (bytes : Bytes)
  | interrupted
  | wouldBlock
  | failed

/-- The object in the body of a response. -/
def document (input : Bytes) : Option (JSONValue D) :=
  match find [cr, lf, cr, lf] input with
  | none => none
  | some split =>
    if (lit "HTTP/1.1 200 ").isPrefixOf input then
      (parse (input.drop (split + 4))).filter JSONValue.isObject
    else none

def finish (p : HttpProbe D) (success : Bool) (clock : Closing) : HttpProbe D :=
  let p :=
    match if success then document p.input else none with
    | some parsed => { p with value := some parsed, updated := clock.updated }
    | none => p
  { p with socket := none, retry := clock.closed + seconds 2 }

/-- The end of Tick, with a socket. -/
def start (p : HttpProbe D) (now : Int) (fd : Nat) (connecting : Bool) : HttpProbe D :=
  { p with
    socket := some fd
    connecting
    writing := true
    sent := 0
    input := []
    deadline := now + seconds 2 }

def tick (p : HttpProbe D) (now : Int) (connect : Address → ConnectResult) (clock : Closing) :
    HttpProbe D :=
  if p.socket.isSome then
    if now ≥ p.deadline then p.finish false clock else p
  else if h : now < p.retry ∨ p.addresses = [] then p
  else
    let address := p.addresses.get ⟨p.addressIndex.toNat % p.addresses.length,
      Nat.mod_lt _ (List.length_pos_iff.mpr (not_or.mp h).2)⟩
    let p := { p with addressIndex := p.addressIndex + 1 }
    match connect address with
    | .failed => p.finish false clock
    | .connected fd => p.start now fd false
    | .connecting fd => p.start now fd true

/-- send took `size` bytes, of those that it was given. -/
def advance (p : HttpProbe D) (size : Nat) : HttpProbe D :=
  let sent := p.sent + min size (kProbeRequest.length - p.sent)
  { p with sent, writing := if sent = kProbeRequest.length then false else p.writing }

/-- At most `tries` calls of recv. An exhausted input list stands for EAGAIN. -/
def receiveLoop (clock : Closing) : Nat → List RecvResult → HttpProbe D → HttpProbe D
  | 0, _, p => p
  | _ + 1, [], p => p
  | tries + 1, result :: results, p =>
    match result with
    | .data [] => p.finish true clock
    | .data (b :: bytes) =>
      let p := { p with input := p.input ++ (b :: bytes).take 4096 }
      if p.input.length > 65536 then p.finish false clock
      else receiveLoop clock tries results p
    | .interrupted => receiveLoop clock tries results p
    | .wouldBlock => p
    | .failed => p.finish false clock

/-- The end of Handle. -/
def receive (p : HttpProbe D) (events : Polled) (recvs : List RecvResult) (clock : Closing) :
    HttpProbe D :=
  if !p.writing && (events.pollin || events.pollhup) then receiveLoop clock 16 recvs p else p

/-- Handle with a connection: the request first. -/
def transfer (p : HttpProbe D) (events : Polled) (sent : SendResult) (recvs : List RecvResult)
    (clock : Closing) : HttpProbe D :=
  if p.writing && events.pollout then
    match sent with
    | .interrupted => p
    | .wouldBlock => p
    | .failed => p.finish false clock
    | .accepted size => (p.advance size).receive events recvs clock
  else p.receive events recvs clock

/-- Handle; `checkConnected` is what CheckConnected finds. -/
def handle (p : HttpProbe D) (events : Polled) (checkConnected : Bool) (sent : SendResult)
    (recvs : List RecvResult) (clock : Closing) : HttpProbe D :=
  if p.socket.isNone then p
  else if events.pollerr || events.pollnval then p.finish false clock
  else if p.connecting && !checkConnected then p.finish false clock
  else { p with connecting := false }.transfer events sent recvs clock

/-- The two calls that the poll loop of the client makes. -/
inductive Event where
  | tick (now : Int) (connect : Address → ConnectResult) (clock : Closing)
  | handle (events : Polled) (checkConnected : Bool) (sent : SendResult) (recvs : List RecvResult)
      (clock : Closing)

def step (p : HttpProbe D) : Event → HttpProbe D
  | .tick now connect clock => p.tick now connect clock
  | .handle events checkConnected sent recvs clock =>
    p.handle events checkConnected sent recvs clock

/-! ## Connections -/

/-- What a call of recv returns before the end of the stream. -/
def RecvResult.Open : RecvResult → Prop
  | .data bytes => bytes ≠ [] ∧ bytes.length ≤ 4096
  | .interrupted => True
  | .wouldBlock => True
  | .failed => False

/-- The bytes of a row of calls. -/
def carried (recvs : List RecvResult) : Bytes :=
  recvs.flatMap fun
    | .data bytes => bytes
    | _ => []

/-- What the connection delivers. -/
def delivered (events : List Event) : Bytes :=
  events.flatMap fun
    | .tick _ _ _ => []
    | .handle _ _ _ recvs _ => carried recvs

/-- Nothing fails before the calls of recv. -/
structure Quiet (p : HttpProbe D) (events : Polled) (checkConnected : Bool) (sent : SendResult) :
    Prop where
  pollerr : events.pollerr = false
  pollnval : events.pollnval = false
  connected : p.connecting = true → checkConnected = true
  sent : sent ≠ .failed

/-- Handle comes to its calls of recv: the request is written, and there is something to read. -/
structure Reads (p : HttpProbe D) (events : Polled) (sent : SendResult) : Prop where
  input : (events.pollin || events.pollhup) = true
  written : p.writing = true → events.pollout = true ∧
    ∃ size, sent = .accepted size ∧ kProbeRequest.length ≤ p.sent + size

/-- The call of Tick that opens a connection. -/
inductive Opens (p : HttpProbe D) : Event → HttpProbe D → Prop
  | tick {now : Int} {connect : Address → ConnectResult} {clock : Closing}
      (hclosed : p.socket = none) (hopen : (p.tick now connect clock).socket.isSome = true) :
      Opens p (.tick now connect clock) (p.tick now connect clock)

/-- A call that leaves the connection open. Its calls of recv, if it comes to them, return what
the connection delivers; EAGAIN can only be the last of them. -/
inductive Serves (p : HttpProbe D) : Event → HttpProbe D → Prop
  | tick {now : Int} {connect : Address → ConnectResult} {clock : Closing}
      (hdeadline : now < p.deadline) : Serves p (.tick now connect clock) (p.tick now connect clock)
  | handle {events : Polled} {checkConnected : Bool} {sent : SendResult} {recvs : List RecvResult}
      {clock : Closing} (hquiet : Quiet p events checkConnected sent)
      (hreads : recvs ≠ [] → Reads p events sent) (htries : recvs.length ≤ 16)
      (hopen : ∀ result ∈ recvs, result.Open)
      (hblocked : ∀ result ∈ recvs.dropLast, result ≠ .wouldBlock) :
      Serves p (.handle events checkConnected sent recvs clock)
        (p.handle events checkConnected sent recvs clock)

/-- The call that meets the end of the stream, possibly behind more data. -/
inductive Closes (p : HttpProbe D) : Event → HttpProbe D → Prop
  | handle {events : Polled} {checkConnected : Bool} {sent : SendResult} {recvs : List RecvResult}
      {clock : Closing} (hquiet : Quiet p events checkConnected sent)
      (hreads : Reads p events sent) (htries : recvs.length < 16)
      (hopen : ∀ result ∈ recvs, result.Open) (hblocked : ∀ result ∈ recvs, result ≠ .wouldBlock) :
      Closes p (.handle events checkConnected sent (recvs ++ [.data []]) clock)
        (p.handle events checkConnected sent (recvs ++ [.data []]) clock)

/-! ## What the probe holds while the connection is open -/

/-- An open probe with the text that it has received and the value from before. -/
structure Live (value : Option (JSONValue D)) (text : Bytes) (p : HttpProbe D) : Prop where
  socket : p.socket.isSome = true
  sent : p.sent ≤ kProbeRequest.length
  input : p.input = text
  value : p.value = value

variable {p q : HttpProbe D} {value : Option (JSONValue D)} {text : Bytes} {events : Polled}
  {checkConnected : Bool} {sent : SendResult} {recvs : List RecvResult}

theorem Live.opens {e : Event} (h : Opens p e q) : Live p.value (delivered [e]) q := by
  cases h with
  | @tick now connect clock hclosed hopen =>
    unfold tick at hopen ⊢
    rw [if_neg (by simp [hclosed])] at hopen ⊢
    split at hopen
    · rw [hclosed] at hopen
      cases hopen
    · rename_i hready
      rw [dif_neg hready]
      simp only at hopen ⊢
      split at hopen
      · cases hopen
      · exact ⟨rfl, Nat.zero_le _, rfl, rfl⟩
      · exact ⟨rfl, Nat.zero_le _, rfl, rfl⟩

omit [Double D] in
theorem Live.advance (h : Live value text p) (size : Nat) : Live value text (p.advance size) := by
  have hsent := h.sent
  refine ⟨h.socket, ?_, h.input, h.value⟩
  show p.sent + min size (kProbeRequest.length - p.sent) ≤ _
  omega

omit [Double D] in
/-- The request is written once its last byte is. -/
theorem advance_writing (h : Live value text p) {size : Nat}
    (hsize : kProbeRequest.length ≤ p.sent + size) : (p.advance size).writing = false := by
  have hsent := h.sent
  have hall : p.sent + min size (kProbeRequest.length - p.sent) = kProbeRequest.length := by omega
  simp only [HttpProbe.advance, hall, if_true]

theorem Live.receive_nil (h : Live value text p) (events : Polled) (clock : Closing) :
    Live value text (p.receive events [] clock) := by
  unfold receive
  split
  · exact h
  · exact h

/-- Handle gets behind its checks. -/
theorem Live.transfers (h : Live value text p) (hquiet : Quiet p events checkConnected sent)
    (recvs : List RecvResult) (clock : Closing) :
    Live value text { p with connecting := false } ∧
      p.handle events checkConnected sent recvs clock =
        { p with connecting := false }.transfer events sent recvs clock := by
  refine ⟨⟨h.socket, h.sent, h.input, h.value⟩, ?_⟩
  have hconnected : ¬ (p.connecting && !checkConnected) = true := by
    cases hc : p.connecting with
    | false => simp
    | true => simp [hquiet.connected hc]
  rw [handle, if_neg (by simp [Option.isSome_iff_ne_none.mp h.socket]),
    if_neg (by simp [hquiet.pollerr, hquiet.pollnval]), if_neg hconnected]

/-- Handle without a call of recv. -/
theorem Live.waits (h : Live value text p) (hquiet : Quiet p events checkConnected sent)
    (clock : Closing) : Live value text (p.handle events checkConnected sent [] clock) := by
  obtain ⟨hlive, hhandle⟩ := h.transfers hquiet [] clock
  rw [hhandle]
  unfold transfer
  split
  · cases sent with
    | interrupted => exact hlive
    | wouldBlock => exact hlive
    | failed => exact absurd rfl hquiet.sent
    | accepted size => exact (hlive.advance size).receive_nil events clock
  · exact hlive.receive_nil events clock

theorem Live.transfer_reads (h : Live value text p) (hreads : Reads p events sent)
    (recvs : List RecvResult) (clock : Closing) :
    ∃ q, Live value text q ∧
      p.transfer events sent recvs clock = receiveLoop clock 16 recvs q := by
  have hreceive : ∀ q : HttpProbe D, q.writing = false →
      q.receive events recvs clock = receiveLoop clock 16 recvs q := by
    intro q hq
    rw [receive, hq, hreads.input]
    rfl
  unfold transfer
  cases hw : p.writing with
  | false => exact ⟨p, h, hreceive p hw⟩
  | true =>
    obtain ⟨hout, size, rfl, hsize⟩ := hreads.written hw
    rw [hout, Bool.and_self, if_pos rfl]
    exact ⟨_, h.advance size, hreceive _ (advance_writing h hsize)⟩

/-- Handle comes to its calls of recv. -/
theorem Live.reads (h : Live value text p) (hquiet : Quiet p events checkConnected sent)
    (hreads : Reads p events sent) (recvs : List RecvResult) (clock : Closing) :
    ∃ q, Live value text q ∧
      p.handle events checkConnected sent recvs clock = receiveLoop clock 16 recvs q := by
  obtain ⟨hlive, hhandle⟩ := h.transfers hquiet recvs clock
  rw [hhandle]
  exact hlive.transfer_reads ⟨hreads.input, hreads.written⟩ recvs clock

/-! ## Reading -/

/-- The calls in front of the last one add their bytes. -/
theorem receiveLoop_open (hopen : ∀ result ∈ recvs, result.Open)
    (hblocked : ∀ result ∈ recvs, result ≠ .wouldBlock) (clock : Closing) (tries : Nat)
    (rest : List RecvResult) (p : HttpProbe D)
    (hlength : (p.input ++ carried recvs).length ≤ 65536) :
    receiveLoop clock (recvs.length + tries) (recvs ++ rest) p =
      receiveLoop clock tries rest { p with input := p.input ++ carried recvs } := by
  induction recvs generalizing p with
  | nil =>
    have hsame : p.input ++ carried [] = p.input := List.append_nil _
    rw [hsame, List.length_nil, Nat.zero_add, List.nil_append]
  | cons result recvs ih =>
    have hih := ih (fun r hr => hopen r (List.mem_cons_of_mem result hr))
      (fun r hr => hblocked r (List.mem_cons_of_mem result hr))
    have hresult := hopen result List.mem_cons_self
    have hcount : (result :: recvs).length + tries = recvs.length + tries + 1 := by
      rw [List.length_cons]
      omega
    rw [hcount, List.cons_append]
    cases result with
    | data bytes =>
      obtain ⟨hne, hsize⟩ := hresult
      have hcarried : p.input ++ carried (.data bytes :: recvs) =
          p.input ++ bytes ++ carried recvs := (List.append_assoc _ _ _).symm
      rw [hcarried] at hlength ⊢
      cases bytes with
      | nil => exact absurd rfl hne
      | cons b bytes =>
        have htake : (b :: bytes).take 4096 = b :: bytes := List.take_of_length_le hsize
        have hsmall : ¬ (p.input ++ b :: bytes).length > 65536 := by
          rw [List.length_append] at hlength
          omega
        simp only [receiveLoop, htake, if_neg hsmall]
        exact hih { p with input := p.input ++ b :: bytes } hlength
    | interrupted => exact hih p hlength
    | wouldBlock => exact absurd rfl (hblocked _ List.mem_cons_self)
    | failed => exact hresult.elim

/-- A row of calls that leaves the connection open. -/
theorem receiveLoop_serves (hopen : ∀ result ∈ recvs, result.Open)
    (hblocked : ∀ result ∈ recvs.dropLast, result ≠ .wouldBlock) (htries : recvs.length ≤ 16)
    (clock : Closing) (p : HttpProbe D) (hlength : (p.input ++ carried recvs).length ≤ 65536) :
    receiveLoop clock 16 recvs p = { p with input := p.input ++ carried recvs } := by
  rcases List.eq_nil_or_concat' recvs with rfl | ⟨front, last, rfl⟩
  · have hsame : p.input ++ carried [] = p.input := List.append_nil _
    rw [hsame]
    rfl
  · rw [List.dropLast_concat] at hblocked
    rw [List.length_append, List.length_singleton] at htries
    have hcarried : carried (front ++ [last]) = carried front ++ carried [last] :=
      List.flatMap_append
    rw [hcarried, ← List.append_assoc] at hlength ⊢
    have hfront : (p.input ++ carried front).length ≤ 65536 := by
      rw [List.length_append] at hlength
      omega
    obtain ⟨n, hn⟩ : ∃ n, 16 = front.length + (n + 1) := ⟨15 - front.length, by omega⟩
    rw [hn, receiveLoop_open (fun r hr => hopen r (List.mem_append_left _ hr)) hblocked clock _ _ _
      hfront]
    have hlast := hopen last (by simp)
    cases last with
    | interrupted =>
      have hsame : carried [.interrupted] = [] := rfl
      rw [hsame, List.append_nil]
      cases n <;> rfl
    | wouldBlock =>
      have hsame : carried [.wouldBlock] = [] := rfl
      rw [hsame, List.append_nil]
      rfl
    | failed => exact hlast.elim
    | data bytes =>
      obtain ⟨hne, hsize⟩ := hlast
      have hsame : carried [.data bytes] = bytes := List.append_nil _
      rw [hsame] at hlength ⊢
      cases bytes with
      | nil => exact absurd rfl hne
      | cons b bytes =>
        have htake : (b :: bytes).take 4096 = b :: bytes := List.take_of_length_le hsize
        simp only [receiveLoop, htake, if_neg (Nat.not_lt.mpr hlength)]
        cases n <;> rfl

theorem delivered_append (es es' : List Event) :
    delivered (es ++ es') = delivered es ++ delivered es' := List.flatMap_append

theorem Live.serves (h : Live value text p) {e : Event} (hstep : Serves p e q)
    (hlength : (text ++ delivered [e]).length ≤ 65536) : Live value (text ++ delivered [e]) q := by
  cases hstep with
  | @tick now connect clock hdeadline =>
    have hsame : delivered [.tick now connect clock] = [] := rfl
    rw [hsame, List.append_nil, tick, if_pos h.socket, if_neg (by omega)]
    exact h
  | @handle events checkConnected sent recvs clock hquiet hreads htries hopen hblocked =>
    have hsame : delivered [.handle events checkConnected sent recvs clock] = carried recvs :=
      List.append_nil _
    rw [hsame] at hlength ⊢
    by_cases hnil : recvs = []
    · obtain rfl := hnil
      have hsame : text ++ carried [] = text := List.append_nil _
      rw [hsame]
      exact h.waits hquiet clock
    · obtain ⟨q, hq, hloop⟩ := h.reads hquiet (hreads hnil) recvs clock
      rw [← hq.input] at hlength
      rw [hloop, receiveLoop_serves hopen hblocked htries clock q hlength]
      exact ⟨hq.socket, hq.sent, congrArg (· ++ carried recvs) hq.input, hq.value⟩

theorem Live.run (h : Live value text p) {es : List Event} (hrun : Run Serves p es q)
    (hlength : (text ++ delivered es).length ≤ 65536) : Live value (text ++ delivered es) q := by
  induction hrun with
  | nil =>
    have hsame : text ++ delivered [] = text := List.append_nil _
    rw [hsame]
    exact h
  | snoc _ hstep ih =>
    rw [delivered_append, ← List.append_assoc] at hlength ⊢
    have hfront := ih (by
      rw [List.length_append] at hlength
      omega)
    exact hfront.serves hstep hlength

/-- The end of the stream. -/
theorem Live.closes (h : Live value text p) {e : Event} (hstep : Closes p e q)
    (hlength : (text ++ delivered [e]).length ≤ 65536) :
    q.socket = none ∧ q.value = (document (text ++ delivered [e])).or value := by
  cases hstep with
  | @handle events checkConnected sent recvs clock hquiet hreads htries hopen hblocked =>
    have hsame : delivered [.handle events checkConnected sent (recvs ++ [.data []]) clock] =
        carried recvs := by
      simp [delivered, carried]
    rw [hsame] at hlength ⊢
    obtain ⟨q, hq, hloop⟩ := h.reads hquiet hreads (recvs ++ [.data []]) clock
    obtain ⟨n, hn⟩ : ∃ n, 16 = recvs.length + (n + 1) := ⟨15 - recvs.length, by omega⟩
    rw [← hq.input] at hlength
    rw [hloop, hn, receiveLoop_open hopen hblocked clock _ _ q hlength, receiveLoop]
    refine ⟨rfl, ?_⟩
    simp only [finish, if_true, hq.input]
    cases (document (text ++ carried recvs) : Option (JSONValue D)) with
    | none => exact hq.value
    | some parsed => rfl

/-! ## Responses that are cut short -/

/-- The header lines of a response to a probe. -/
def headerLines (body : Bytes) : List Bytes :=
  [lit "Content-Type: application/json", lit "Content-Length: " ++ Decimal.numeral body.length,
    lit "Connection: close", lit "Cache-Control: no-store"]

theorem response_headed (body : Bytes) :
    httpResponse 200 body =
      headed cr lf (lit "HTTP/1.1 200 OK") (headerLines body) ([cr, lf] ++ body) := by
  have hfirst : lit "HTTP/1.1 200 OK" =
      lit "HTTP/1.1 " ++ Decimal.numeral 200 ++ lit " " ++ reason 200 := rfl
  have htype : lit "\r\nContent-Type: " = [cr, lf] ++ lit "Content-Type: " := rfl
  have hjson : lit "Content-Type: application/json" =
      lit "Content-Type: " ++ lit "application/json" := rfl
  have hlength : lit "\r\nContent-Length: " = [cr, lf] ++ lit "Content-Length: " := rfl
  have hlast : lit "\r\nConnection: close\r\nCache-Control: no-store\r\n" =
      [cr, lf] ++ lit "Connection: close" ++ [cr, lf] ++ lit "Cache-Control: no-store" ++
        [cr, lf] := rfl
  have hpair : lit "\r\n" = [cr, lf] := rfl
  have hallow : ¬ (200 = 405) := by decide
  simp only [httpResponse, headed, terminated, headerLines, hfirst, htype, hjson, hlength, hlast,
    hpair, if_neg hallow, List.append_assoc, List.flatMap_cons, List.flatMap_nil, List.nil_append]

theorem rows_headerLines (body : Bytes) : Rows cr lf (headerLines body) := by
  have hlength : cr ∉ lit "Content-Length: " ++ Decimal.numeral body.length := by
    intro hc
    rcases List.mem_append.mp hc with hc | hc
    · exact absurd hc (by decide)
    · exact absurd (Decimal.isDigit_numeral hc) (by decide)
  simp only [Rows, headerLines, List.forall_mem_cons]
  refine ⟨⟨line_of_not_mem (by decide), by decide⟩, ⟨line_of_not_mem hlength, by simp [lit]⟩,
    ⟨line_of_not_mem (by decide), by decide⟩, ⟨line_of_not_mem (by decide), by decide⟩,
    List.forall_mem_nil _⟩

/-- The body stands behind the first empty line. -/
theorem find_response (body : Bytes) :
    ∃ n, find [cr, lf, cr, lf] (httpResponse 200 body) = some n ∧
      (httpResponse 200 body).drop (n + 4) = body := by
  refine ⟨(lit "HTTP/1.1 200 OK").length + (terminated cr lf (headerLines body)).length, ?_, ?_⟩
  · rw [response_headed, find_blank (by decide) (line_of_not_mem (by decide))
      (rows_headerLines body), if_pos (List.prefix_append _ _)]
  · rw [response_headed, headed, ← List.append_assoc]
    apply List.drop_left'
    simp only [List.length_append, List.length_cons, List.length_nil]
    omega

theorem document_response (body : Bytes) :
    document (D := D) (httpResponse 200 body) = (parse body).filter JSONValue.isObject := by
  obtain ⟨n, hfind, hdrop⟩ := find_response body
  have hstart : (lit "HTTP/1.1 200 ").isPrefixOf (httpResponse 200 body) = true := by
    rw [response_headed]
    rfl
  simp only [document, hfind, hstart, if_true, hdrop]

/-- A text that is cut short holds no object: it ends in the head, or in the body. -/
theorem document_truncated [LawfulDouble D] {members : List (Bytes × JSONValue D)}
    {indent : Int32} {body text rest : Bytes}
    (hbody : (JSONValue.object members).toString indent = some body)
    (htext : httpResponse 200 body = text ++ rest) (hrest : rest ≠ []) :
    document (D := D) text = none := by
  unfold document
  split
  · rfl
  · rename_i split hsplit
    obtain ⟨n, hfind, hdrop⟩ := find_response body
    have hsame := find_append hsplit rest
    rw [← htext, hfind] at hsame
    obtain rfl := Option.some.inj hsame
    have hle : n + 4 ≤ text.length := by
      have hlength := congrArg List.length (find_some hsplit)
      simp only [List.length_append, List.length_cons, List.length_nil, List.length_take] at hlength
      omega
    rw [htext, List.drop_append_of_le_length hle] at hdrop
    rw [parse_truncated hbody hdrop.symm hrest]
    split <;> rfl

/-- A connection that ends early does not change the value, and a complete one sets it to what the
body holds, however the bytes are cut over the calls. -/
theorem truncation_harmless [LawfulDouble D] {members : List (Bytes × JSONValue D)}
    {indent : Int32} {body : Bytes}
    (hbody : (JSONValue.object members).toString indent = some body)
    (hlength : (httpResponse 200 body).length ≤ 65536) {p q r p' : HttpProbe D}
    {first last : Event} {es : List Event} (hopen : Opens p first q) (hrun : Run Serves q es r)
    (hclose : Closes r last p')
    (hsent : delivered (first :: es ++ [last]) <+: httpResponse 200 body) :
    p'.socket = none ∧
      p'.value = if delivered (first :: es ++ [last]) = httpResponse 200 body then
        (parse body).or p.value else p.value := by
  have hparts : delivered (first :: es ++ [last]) =
      delivered [first] ++ delivered es ++ delivered [last] := by
    rw [delivered_append, ← List.singleton_append, delivered_append]
  generalize htext : delivered (first :: es ++ [last]) = text at hsent ⊢
  rw [hparts] at htext
  have hsize : (delivered [first] ++ delivered es ++ delivered [last]).length ≤ 65536 := by
    rw [htext]
    exact hsent.length_le.trans hlength
  have hfront : (delivered [first] ++ delivered es).length ≤ 65536 := by
    rw [List.length_append] at hsize
    omega
  obtain ⟨hsocket, hvalue⟩ := ((Live.opens hopen).run hrun hfront).closes hclose hsize
  refine ⟨hsocket, ?_⟩
  rw [hvalue, htext]
  split
  · rename_i hwhole
    have hobject : (parse body).filter JSONValue.isObject = (parse body : Option (JSONValue D)) := by
      cases hparse : (parse body : Option (JSONValue D)) with
      | none => rfl
      | some v => rw [Option.filter_some, if_pos (parse_object hbody hparse)]
    rw [hwhole, document_response, hobject]
  · rename_i hcut
    obtain ⟨rest, hrest⟩ := hsent
    have hne : rest ≠ [] := by
      rintro rfl
      exact hcut (by rw [← hrest, List.append_nil])
    rw [document_truncated hbody hrest.symm hne, Option.none_or]

/-- A probe that has a value. -/
def holding : HttpProbe Integral := { addresses := [⟨2, []⟩], value := some (.object []) }

/-- The connection ends in front of the last byte of the response. -/
def braceless : List Event :=
  let clock : Closing := { updated := 0, closed := 0 }
  [.tick 0 (fun _ => .connecting 5) clock,
    .handle { pollout := true } true (.accepted 4096) [] clock,
    .tick 1 (fun _ => .failed) clock,
    .handle { pollin := true } true .wouldBlock
      [.data (lit "HTTP/1.1 200 OK\r\nContent-Type: application/json\r\nContent-Le"),
        .interrupted] clock,
    .handle { pollin := true, pollhup := true } true .wouldBlock
      [.data (lit "ngth: 7\r\nConnection: close\r\nCache-Control: no-store\r\n\r\n\x7b\"a\":1"),
        .data []] clock]

theorem truncation_harmless_brace :
    delivered braceless ++ lit "\x7d" = httpResponse 200 (lit "\x7b\"a\":1\x7d") ∧
      (braceless.foldl step holding).socket = none ∧
      (braceless.foldl step holding).value = some (.object []) := by
  have hbody : (JSONValue.object [(lit "a", .uint64 1)] : JSONValue Integral).toString =
      some (lit "\x7b\"a\":1\x7d") := rfl
  have hwhole : delivered braceless ++ lit "\x7d" = httpResponse 200 (lit "\x7b\"a\":1\x7d") := by
    decide
  have hne : delivered braceless ≠ httpResponse 200 (lit "\x7b\"a\":1\x7d") := by decide
  let clock : Closing := { updated := 0, closed := 0 }
  let connect : Event := .tick 0 (fun _ => .connecting 5) clock
  let write : Event := .handle { pollout := true } true (.accepted 4096) [] clock
  let wait : Event := .tick 1 (fun _ => .failed) clock
  let read : Event := .handle { pollin := true } true .wouldBlock
    [.data (lit "HTTP/1.1 200 OK\r\nContent-Type: application/json\r\nContent-Le"), .interrupted] clock
  let close : Event := .handle { pollin := true, pollhup := true } true .wouldBlock
    ([.data (lit "ngth: 7\r\nConnection: close\r\nCache-Control: no-store\r\n\r\n\x7b\"a\":1")] ++
      [.data []]) clock
  have hevents : connect :: ([write] ++ [wait] ++ [read]) ++ [close] = braceless := rfl
  have hopen : Opens holding connect (holding.step connect) := .tick rfl rfl
  have hwrite : Serves (holding.step connect) write ((holding.step connect).step write) :=
    .handle ⟨rfl, rfl, fun _ => rfl, by simp⟩ (absurd rfl) (by decide) (List.forall_mem_nil _)
      (List.forall_mem_nil _)
  have hwait : Serves _ wait (((holding.step connect).step write).step wait) := .tick (by decide)
  have hread : Serves _ read ((((holding.step connect).step write).step wait).step read) :=
    .handle ⟨rfl, rfl, fun _ => rfl, by simp⟩ (fun _ => ⟨rfl, fun h => absurd h (by decide)⟩)
      (by decide)
      (List.forall_mem_cons.mpr ⟨⟨by decide, by decide⟩, List.forall_mem_singleton.mpr trivial⟩)
      (List.forall_mem_singleton.mpr (by simp))
  have hclose : Closes _ close (((((holding.step connect).step write).step wait).step read).step close) :=
    .handle ⟨rfl, rfl, fun _ => rfl, by simp⟩ ⟨rfl, fun h => absurd h (by decide)⟩ (by decide)
      (List.forall_mem_singleton.mpr ⟨by decide, by decide⟩)
      (List.forall_mem_singleton.mpr (by simp))
  have hlast : braceless.foldl step holding =
      ((((holding.step connect).step write).step wait).step read).step close := by
    rw [← hevents]
    simp only [List.cons_append, List.nil_append, List.foldl_cons, List.foldl_nil]
  have hrun := ((Run.single hwrite).trans (Run.single hwait)).trans (Run.single hread)
  obtain ⟨hsocket, hvalue⟩ := truncation_harmless hbody (by decide +kernel) hopen hrun hclose
    (hevents ▸ ⟨lit "\x7d", hwhole⟩)
  rw [hevents, if_neg hne] at hvalue
  rw [hlast]
  exact ⟨hwhole, hsocket, hvalue⟩

end HttpProbe
end WebHtop.Client
