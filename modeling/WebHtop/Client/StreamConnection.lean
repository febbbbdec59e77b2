import WebHtop.Common.Protocol

/-!
# The client's stream connection

`StreamConnection` of client/net/stream_connection.cpp. Poll flags, the results of
connect, getsockopt and recv, the readings of the clock and the random draw are inputs.
`log` is an observation; no function reads it.
-/

namespace WebHtop.Client

open WebHtop.Common

variable {D : Type} [Double D]

structure Address where
  family : Int
  address : Bytes
  deriving DecidableEq

/-- What a connection does, in the order in which it happens. -/
inductive Action (D : Type) where
  | opened (address : Address)
  | received (bytes : Bytes)
  /-- `receive` is called with a snapshot. -/
  | handed (snapshot : SystemSnapshot D)
  | closed (reason : Bytes)

/-- Time points are in nanoseconds. -/
structure StreamConnection (D : Type) where
  addresses : List Address
  some_address : addresses ≠ []
  socket : Option Nat := none
  decoder : FrameDecoder := {}
  retry : Int := 0
  deadline : Int := 0
  lastFrame : Int := 0
  frameStarted : Int := 0
  addressIndex : UInt64 := 0
  attempts : Nat := 0
  connected : Bool := false
  inFrame : Bool := false
  status : Bytes := lit "connecting"
  bytes : UInt64 := 0
  reconnects : UInt64 := 0
  log : List (Action D) := []

def milliseconds (n : Nat) : Int := n * 1000000

def seconds (n : Nat) : Int := n * 1000000000

/-- What Disconnect reads: the clock, and a number drawn from `random_`. -/
structure Pause where
  now : Int
  draw : Nat

/-- Connect: a socket that is connected or still connecting, or none. -/
inductive ConnectResult where
  | connected (fd : Nat)
  | connecting (fd : Nat)
  | failed

/-- The clock while a chunk is worked off, by the number of bytes that are left. -/
structure Readings where
  frameStarted : Nat → Int
  lastFrame : Nat → Int

inductive RecvResult where
  | data (bytes : Bytes) (readings : Readings)
  | interrupted
  | wouldBlock
  | failed

/-- The flags that poll returns. -/
structure Polled where
  pollin : Bool := false
  pollout : Bool := false
  pollerr : Bool := false
  pollhup : Bool := false
  pollnval : Bool := false

namespace StreamConnection

/-- The constructor; `none` is the `std::invalid_argument`. -/
def init (addresses : List Address) : Option (StreamConnection D) :=
  if h : addresses ≠ [] then some { addresses, some_address := h } else none

/-- `uniform_int_distribution(cap / 2, cap)`. -/
def jitter (cap draw : Nat) : Nat := cap / 2 + draw % (cap - cap / 2 + 1)

def disconnect (c : StreamConnection D) (reason : Bytes) (pause : Pause) : StreamConnection D :=
  let cap := min 10000 (250 <<< min c.attempts 5)
  { c with
    socket := none
    decoder := c.decoder.reset
    connected := false
    inFrame := false
    status := reason
    retry := pause.now + milliseconds (jitter cap pause.draw)
    attempts := min (c.attempts + 1) 16
    reconnects := c.reconnects + 1
    log := c.log ++ if c.socket.isSome then [.closed reason] else [] }

/-- `addresses_[address_index_ % addresses_.size()]`. -/
def address (c : StreamConnection D) : Address :=
  c.addresses.get ⟨c.addressIndex.toNat % c.addresses.length,
    Nat.mod_lt _ (List.length_pos_iff.mpr c.some_address)⟩

/-- The end of Tick, with a socket. -/
def connect (c : StreamConnection D) (now : Int) (fd : Nat) (connected : Bool) :
    StreamConnection D :=
  { c with
    socket := some fd
    addressIndex := c.addressIndex + 1
    connected
    deadline := now + seconds 3
    lastFrame := now
    status := if connected then lit "connected" else lit "connecting"
    log := c.log ++ [.opened c.address] }

def tick (c : StreamConnection D) (now : Int) (result : ConnectResult) (pause : Pause) :
    StreamConnection D :=
  if c.socket.isSome then
    if !c.connected ∧ now ≥ c.deadline then c.disconnect (lit "connect timeout") pause
    else if c.inFrame ∧ now - c.frameStarted > seconds 10 then
      c.disconnect (lit "frame deadline exceeded") pause
    else if c.connected ∧ now - c.lastFrame > seconds 180 then
      c.disconnect (lit "stream idle timeout") pause
    else c
  else if now < c.retry then c
  else
    match result with
    | .failed =>
      disconnect { c with addressIndex := c.addressIndex + 1 } (lit "connect failed; retrying") pause
    | .connected fd => c.connect now fd true
    | .connecting fd => c.connect now fd false

/-- The first byte of a frame starts its deadline. -/
def enterFrame (c : StreamConnection D) (now : Int) : StreamConnection D :=
  if c.inFrame then c else { c with inFrame := true, frameStarted := now }

/-- The loop of Handle over one chunk; `false` is a return from Handle. `none` is a loop
still running after `fuel` turns. -/
def takeChunk (readings : Readings) (pause : Pause) :
    Nat → StreamConnection D → Bytes → Option (Bool × StreamConnection D)
  | _, c, [] => some (true, c)
  | 0, _, _ :: _ => none
  | fuel + 1, c, b :: bytes =>
    let c := c.enterFrame (readings.frameStarted (bytes.length + 1))
    match c.decoder.feed (b :: bytes) with
    | none => some (false, c.disconnect (lit "invalid frame length") pause)
    | some (consumed, decoder) =>
      let c := { c with decoder }
      let rest := (b :: bytes).drop consumed
      if decoder.complete then
        match decode (D := D) decoder.payload with
        | .error reason => some (false, c.disconnect reason pause)
        | .ok snapshot =>
          let c :=
            { c with
              decoder := decoder.reset
              inFrame := false
              lastFrame := readings.lastFrame rest.length
              attempts := 0
              log := c.log ++ [.handed snapshot] }
          takeChunk readings pause fuel c rest
      else takeChunk readings pause fuel c rest

/-- At most `reads` calls of recv. An exhausted input list stands for EAGAIN; data without
bytes is the end of the stream. -/
def receiveLoop (pause : Pause) :
    Nat → List RecvResult → StreamConnection D → Option (StreamConnection D)
  | 0, _, c => some c
  | _ + 1, [], c => some c
  | reads + 1, result :: results, c =>
    match result with
    | .interrupted => receiveLoop pause reads results c
    | .wouldBlock => some c
    | .failed => some (c.disconnect (lit "receive failed") pause)
    | .data [] _ =>
      let reason := if c.inFrame then lit "truncated frame" else lit "server closed stream"
      some (c.disconnect reason pause)
    | .data (b :: bytes) readings =>
      let chunk := (b :: bytes).take 16384
      let c :=
        { c with
          bytes := c.bytes + UInt64.ofNat chunk.length
          log := c.log ++ [.received chunk] }
      match takeChunk readings pause chunk.length c chunk with
      | none => none
      | some (false, c) => some c
      | some (true, c) => receiveLoop pause reads results c

/-- Handle; `checkConnected` is what CheckConnected finds, `now` the clock behind it. -/
def handle (c : StreamConnection D) (events : Polled) (checkConnected : Bool) (now : Int)
    (recvs : List RecvResult) (pause : Pause) : Option (StreamConnection D) :=
  if c.socket.isNone then some c
  else if events.pollnval then some (c.disconnect (lit "invalid socket") pause)
  else if !c.connected && !(events.pollout || events.pollerr || events.pollhup) then some c
  else if !c.connected && !checkConnected then
    some (c.disconnect (lit "connect refused; retrying") pause)
  else
    let c :=
      if c.connected then c
      else { c with connected := true, status := lit "connected", lastFrame := now }
    if !(events.pollin || events.pollhup || events.pollerr) then some c
    else receiveLoop pause 16 recvs c

/-- The two calls that the poll loop of the client makes. -/
inductive Event where
  | tick (now : Int) (result : ConnectResult) (pause : Pause)
  | handle (events : Polled) (checkConnected : Bool) (now : Int) (recvs : List RecvResult)
      (pause : Pause)

def step (c : StreamConnection D) : Event → Option (StreamConnection D)
  | .tick now result pause => some (c.tick now result pause)
  | .handle events checkConnected now recvs pause => c.handle events checkConnected now recvs pause

end StreamConnection
end WebHtop.Client
