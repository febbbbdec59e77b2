import WebHtop.Lib.Table
import WebHtop.Server.OutputQueue

/-!
# The reactor

`Reactor` of server/transport/reactor.cpp. System calls are inputs: what accept4,
recv and send return is supplied by the caller, as is the text Route answers.
Time passes only inside `send` and between handlers, in nanoseconds.
`issued`, `underflow`, `wire`, `log` and `closed` are observations; no handler reads them.
-/

namespace WebHtop.Server

open WebHtop.Lib

/-! `epoll_event::data.u64`: the tokens below 16 are the fixed descriptors. -/

def kHttp : Nat := 1
def kStream : Nat := 2
def kSignal : Nat := 3
def kNotification : Nat := 4
def kTimer : Nat := 5
def kWriteBudget : Nat := 64 * 1024
def kQueueBudget : Nat := 64 * 1024 * 1024

/-- The limits of `ServerConfig` that the reactor reads; timeouts in milliseconds. -/
structure ReactorConfig where
  maxClients : Nat := 256
  requestTimeout : Nat := 3000
  writeTimeout : Nat := 5000

/-- What happens to a session. -/
inductive Happening where
  | accepted
  | received (bytes : Bytes)
  | enqueued (buffer : Buffer)
  /-- Enqueue went over the budget and emptied the queue. -/
  | refused
  | sent (bytes : Bytes)
  deriving DecidableEq

structure Session where
  fd : Nat
  streaming : Bool := false
  responding : Bool := false
  request : Bytes := []
  output : OutputQueue := {}
  acceptedAt : Nat := 0
  lastProgress : Nat := 0
  log : List (Nat × Happening) := []

/-- What `epoll_ctl` holds for a descriptor: EPOLLIN|EPOLLRDHUP and EPOLLOUT. -/
structure Registration where
  fd : Nat
  token : Nat
  input : Bool
  output : Bool

/-- The loaded generation, as far as the transport reads it. Frame never returns
fewer than five bytes. -/
structure Published where
  sequence : Nat
  frame : Buffer
  tagged : frame.sequence = some sequence
  nonempty : frame.bytes ≠ []

/-- Bytes that one `send` accepted, cut from a buffer at an offset. -/
structure Sent where
  token : Nat
  sequence : Option Nat
  offset : Nat
  bytes : Bytes
  deriving DecidableEq

/-- The members that Enqueue, Write and Close keep: `queued_bytes_` and the
counters, with the clock and the observations. -/
structure Meter where
  queuedBytes : Nat := 0
  dropped : Nat := 0
  bytesSent : Nat := 0
  clock : Nat := 0
  underflow : Bool := false
  wire : List Sent := []

/-- Arithmetic of `std::size_t`, which wraps modulo 2^64. -/
def sub64 (a b : Nat) : Nat := if b ≤ a then a - b else 2 ^ 64 - (b - a)
def add64 (a b : Nat) : Nat := (a + b) % 2 ^ 64

theorem sub64_eq {a b : Nat} (h : b ≤ a) : sub64 a b = a - b := if_pos h

theorem add64_eq {a b : Nat} (h : a + b < 2 ^ 64) : add64 a b = a + b := Nat.mod_eq_of_lt h

namespace Meter

/-- `queued_bytes_ -= size`. -/
def subtract (m : Meter) (size : Nat) : Meter :=
  { m with
    queuedBytes := sub64 m.queuedBytes size
    underflow := m.underflow || decide (m.queuedBytes < size) }

def add (m : Meter) (size : Nat) : Meter :=
  { m with queuedBytes := add64 m.queuedBytes size }

/-- The counters after Push: what the session held before is taken off first. -/
def charge (m : Meter) (output : OutputQueue) (buffer : Buffer) : Meter :=
  let counted := if (output.push buffer).1 then { m with dropped := m.dropped + 1 } else m
  (counted.subtract output.bytes).add (output.push buffer).2.bytes

/-- Reactor::Enqueue. -/
def enqueue (m : Meter) (s : Session) (buffer : Buffer) : Bool × Session × Meter :=
  let charged := m.charge s.output buffer
  let output := (s.output.push buffer).2
  let lastProgress := if s.output.empty then charged.clock else s.lastProgress
  let log := s.log ++ [(m.clock, .enqueued buffer)]
  if charged.queuedBytes > kQueueBudget then
    (false, { s with output := {}, lastProgress, log := log ++ [(m.clock, .refused)] },
      charged.subtract output.bytes)
  else (true, { s with output, lastProgress, log }, charged)

end Meter

inductive RecvResult where
  | data (bytes : Bytes)
  | interrupted
  | wouldBlock
  | failed

/-- `accepted size elapsed`: send took `size` bytes, and `elapsed` passed meanwhile. -/
inductive SendResult where
  | accepted (size elapsed : Nat)
  | interrupted
  | wouldBlock
  | failed

def crlfcrlf : Bytes := [13, 10, 13, 10]

/-- `s.request.find("\r\n\r\n") != npos`. -/
def hasBlankLine : Bytes → Bool
  | [] => false
  | c :: cs => crlfcrlf.isPrefixOf (c :: cs) || hasBlankLine cs

/-- Reactor::Read, at most `tries` calls of recv. An exhausted input list stands for
EAGAIN; `data []` is the end of the stream. -/
def readLoop (limit : Buffer) (route : Bytes → Buffer) :
    Nat → List RecvResult → Session → Meter → Bool × Session × Meter
  | 0, _, s, m => (true, s, m)
  | _ + 1, [], s, m => (true, s, m)
  | tries + 1, result :: results, s, m =>
    match result with
    | .interrupted => readLoop limit route tries results s m
    | .wouldBlock => (true, s, m)
    | .failed => (false, s, m)
    | .data [] => (false, s, m)
    | .data (c :: cs) =>
      let s :=
        { s with
          request := s.request ++ (c :: cs).take 2048
          log := s.log ++ [(m.clock, .received ((c :: cs).take 2048))] }
      let response : Option Buffer :=
        if s.request.length > 8192 then some limit
        else if hasBlankLine s.request then some (route s.request)
        else none
      match response with
      | none => readLoop limit route tries results s m
      | some response =>
        if response.bytes = [] then readLoop limit route tries results s m
        else m.enqueue { s with responding := true, request := [] } { response with sequence := none }

/-- Reactor::Write. `send` never accepts more than it was offered; the branch of
`std::logic_error` is not reached. -/
def writeLoop (token : Nat) :
    Nat → List SendResult → Session → Meter → Bool × Session × Meter
  | _, [], s, m => (s.streaming || !s.output.empty, s, m)
  | budget, result :: results, s, m =>
    if budget = 0 ∨ s.output.empty = true then (s.streaming || !s.output.empty, s, m)
    else
      match result with
      | .interrupted => writeLoop token budget results s m
      | .wouldBlock => (true, s, m)
      | .failed => (false, s, m)
      | .accepted size elapsed =>
        let written := min size (min s.output.front.length budget)
        if written = 0 then (false, s, m)
        else
          match s.output.consume written with
          | none => (false, s, m)
          | some output =>
            let chunk : Sent :=
              { token
                sequence := s.output.current.bind Buffer.sequence
                offset := s.output.offset
                bytes := s.output.front.take written }
            let m := m.subtract written
            let m :=
              { m with
                bytesSent := m.bytesSent + written
                clock := m.clock + elapsed
                wire := m.wire ++ [chunk] }
            writeLoop token (budget - written) results
              { s with
                output := output
                lastProgress := m.clock
                log := s.log ++ [(m.clock, .sent chunk.bytes)] } m

structure Reactor extends Meter where
  httpListener : Nat := 3
  streamListener : Nat := 4
  epoll : List Registration := []
  sessions : Table Nat Session := []
  nextToken : Nat := 16
  lastSequence : Nat := 0
  accepted : Nat := 0
  rejected : Nat := 0
  timeouts : Nat := 0
  listenersPaused : Bool := false
  stopped : Bool := false
  issued : List Nat := []
  closed : Table Nat Session := []

namespace Reactor

def register (r : Reactor) (fd : Nat) (token : Nat) (input output : Bool) : Reactor :=
  { r with epoll := r.epoll ++ [{ fd, token, input, output }] }

/-- Stream is server-to-client only: EPOLLIN is not watched there. -/
def modify (r : Reactor) (token : Nat) (s : Session) : Reactor :=
  { r with
    epoll := r.epoll.map fun e =>
      if e.fd = s.fd then
        { fd := s.fd
          token
          input := !s.streaming && !s.responding
          output := !s.output.empty }
      else e }

def unregister (r : Reactor) (fd : Nat) : Reactor :=
  { r with epoll := r.epoll.filter fun e => e.fd ≠ fd }

/-- EPOLL_CTL_ADD of the constructor: both listeners and the control descriptors. -/
def init (httpListener streamListener signalFd notificationFd timer : Nat) : Reactor :=
  let r : Reactor := { httpListener, streamListener }
  ((((r.register httpListener kHttp true false).register streamListener kStream true false).register
    signalFd kSignal true false).register notificationFd kNotification true false).register
    timer kTimer true false

inductive AcceptResult where
  | descriptor (fd : Nat)
  | interrupted
  | wouldBlock
  | exhausted
  | failed

/-- `Register` and `emplace` at the end of an accept. -/
def insert (r : Reactor) (token : Nat) (s : Session) : Reactor :=
  let r := r.register s.fd token (!s.streaming) (s.streaming && !s.output.empty)
  { r with sessions := r.sessions ++ [(token, s)], accepted := r.accepted + 1 }

/-- One turn of the loop of Reactor::Accept; `latest` is what the state held when
this turn loaded it. -/
def accept (config : ReactorConfig) (latest : Option Published) (streaming : Bool)
    (result : AcceptResult) (r : Reactor) : Reactor :=
  match result with
  | .interrupted => r
  | .wouldBlock => r
  | .exhausted =>
    let r := (r.unregister r.httpListener).unregister r.streamListener
    { r with listenersPaused := true, rejected := r.rejected + 1 }
  | .failed => { r with rejected := r.rejected + 1 }
  | .descriptor fd =>
    if r.sessions.length ≥ config.maxClients then { r with rejected := r.rejected + 1 }
    else
      let token := r.nextToken
      let r := { r with nextToken := r.nextToken + 1, issued := r.issued ++ [token] }
      let s : Session :=
        { fd, streaming, acceptedAt := r.clock, lastProgress := r.clock,
          log := [(r.clock, .accepted)] }
      match streaming, latest with
      | true, some published =>
        match r.toMeter.enqueue s published.frame with
        | (true, s, m) => { r with toMeter := m }.insert token s
        | (false, s, m) =>
          { r with toMeter := m, rejected := r.rejected + 1, closed := r.closed ++ [(token, s)] }
      | _, _ => r.insert token s

/-- Reactor::Close. -/
def close (r : Reactor) (token : Nat) : Reactor :=
  match r.sessions.get token with
  | none => r
  | some s =>
    let r := { r with toMeter := r.toMeter.subtract s.output.bytes }
    let r := r.unregister s.fd
    { r with sessions := r.sessions.erase token, closed := r.closed ++ [(token, s)] }

/-- The body of the loop of Reactor::Broadcast for one session. -/
def broadcastTo (published : Published) (r : Reactor) (token : Nat) : Reactor :=
  match r.sessions.get token with
  | none => r
  | some s =>
    if !s.streaming then r
    else
      let (ok, s, m) := r.toMeter.enqueue s published.frame
      let r := { r with toMeter := m, sessions := r.sessions.set token s }
      if ok then r.modify token s else { r with rejected := r.rejected + 1 }.close token

/-- Reactor::Broadcast. -/
def broadcast (r : Reactor) (latest : Option Published) : Reactor :=
  match latest with
  | none => r
  | some published =>
    if published.sequence = r.lastSequence then r
    else
      r.sessions.keys.foldl (broadcastTo published) { r with lastSequence := published.sequence }

def expired (config : ReactorConfig) (clock : Nat) (s : Session) : Bool :=
  (!s.streaming && !s.responding && clock - s.acceptedAt > config.requestTimeout * 1000000) ||
    (!s.output.empty && clock - s.lastProgress > config.writeTimeout * 1000000)

/-- The body of the loop of Reactor::Sweep for one session. -/
def sweepOne (config : ReactorConfig) (r : Reactor) (token : Nat) : Reactor :=
  match r.sessions.get token with
  | none => r
  | some s =>
    if expired config r.clock s then { r with timeouts := r.timeouts + 1 }.close token else r

/-- Reactor::Sweep. -/
def sweep (config : ReactorConfig) (r : Reactor) : Reactor :=
  let r := r.sessions.keys.foldl (sweepOne config) r
  if r.listenersPaused then
    { (r.register r.httpListener kHttp true false).register r.streamListener kStream true false with
      listenersPaused := false }
  else r

/-- The epoll flags of one returned event. -/
structure Ready where
  input : Bool := false
  readHup : Bool := false
  output : Bool := false
  hup : Bool := false
  error : Bool := false

/-- The session branch of Reactor::Run. -/
def handle (limit : Buffer) (route : Bytes → Buffer) (r : Reactor) (token : Nat) (ready : Ready)
    (recvs : List RecvResult) (sends : List SendResult) : Reactor :=
  match r.sessions.get token with
  | none => r
  | some s =>
    let alive := !ready.error
    let (alive, s, m) :=
      if alive && !s.streaming && !s.responding && (ready.input || ready.readHup || ready.hup) then
        readLoop limit route 8 recvs s r.toMeter
      else (alive, s, r.toMeter)
    let (alive, s, m) :=
      if alive && ready.output then writeLoop token kWriteBudget sends s m else (alive, s, m)
    let alive := alive && !ready.hup
    let r := { r with toMeter := m, sessions := r.sessions.set token s }
    if alive then r.modify token s else r.close token

/-- The signal branch of Reactor::Run. -/
def shutdown (r : Reactor) : Reactor :=
  { r with
    sessions := []
    queuedBytes := 0
    stopped := true
    closed := r.closed ++ r.sessions }

end Reactor
end WebHtop.Server
