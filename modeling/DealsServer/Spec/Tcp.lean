import DealsServer.Spec.Strings

/-!
# Connections (`tcp_server.cpp`, `tcp_server.hpp`)

`TCPServer.process` is one round of `TCPServer::process` over all connections, for any connection
context and any `on_data`. What the network does in the round is its input: the answer of `poll`, and
for each connection the events that `poll` reports and what `ioctl`, `recv` and `send` meet.

A connection also carries its history: `received`, what `recv` returned, and `written`, what was
appended to `data_out`.
-/

namespace DealsServer

/-- `MAX_CONNECTION_LIFETIME_SEC`. -/
def maxConnectionLifetimeSec : UInt32 := 10

/-- `MAX_CONNECTION_IDLE_TIME_SEC`. -/
def maxConnectionIdleTimeSec : UInt32 := 2

/-- What `network_read` meets: a failing `ioctl`, a `FIONREAD` count of 0, a `recv` of -1 or 0, or at
least one byte, with the clock read after it. -/
inductive ReadOutcome
  | ioctlFailed
  | countZero
  | recvFailed
  | recvZero
  | data (first : UInt8) (rest : Bytes) (now : UInt32)
  deriving DecidableEq, Repr

/-- `TCPConnection`, with its history. -/
structure TCPConnection where
  createdTime : UInt32
  lastBeatTime : UInt32
  dataIn : Bytes
  dataOut : Bytes
  connectionAlive : Bool
  received : List Bytes
  written : List Bytes
  deriving DecidableEq, Repr

namespace TCPConnection

/-- The connection after a successful `accept`. -/
def accepted (now : UInt32) : TCPConnection := ⟨now, now, [], [], true, [], []⟩

/-- `close()`. -/
def close (c : TCPConnection) : TCPConnection := { c with connectionAlive := false }

/-- `write(out)`. -/
def write (c : TCPConnection) (out : Bytes) : TCPConnection :=
  { c with dataOut := c.dataOut ++ out, written := c.written ++ [out] }

/-- `close(msg)`. -/
def closeWith (c : TCPConnection) (msg : Bytes) : TCPConnection := (c.write msg).close

/-- `reset()`. -/
def reset (c : TCPConnection) : TCPConnection := { c.close with dataOut := [] }

/-- `has_something_to_send()`. -/
def hasSomethingToSend (c : TCPConnection) : Bool := c.dataOut ≠ []

/-- `is_alive()`. -/
def isAlive (c : TCPConnection) : Bool := c.hasSomethingToSend || c.connectionAlive

/-- `network_read()`. A failure closes the connection and leaves `data_in` as it is. -/
def networkRead (c : TCPConnection) : ReadOutcome → TCPConnection
  | .data first rest now =>
    { c with lastBeatTime := now, dataIn := first :: rest, received := c.received ++ [first :: rest] }
  | _ => c.close

/-- `network_write()`: the whole output is sent at once, or the connection is closed. The length is a
`uint32_t`. -/
def networkWrite (c : TCPConnection) (now : UInt32) (sent : Bool) : TCPConnection :=
  if c.dataOut.length % 2 ^ 32 = 0 then c
  else
    let c := { c with lastBeatTime := now, dataOut := [] }
    if sent then c else c.close

/-- The lifetime and idle checks made while the poll set is built. -/
def checkTimes (c : TCPConnection) (currentTime : UInt32) : TCPConnection :=
  if currentTime - c.createdTime > maxConnectionLifetimeSec then c.close
  else if currentTime - c.lastBeatTime > maxConnectionIdleTimeSec then c.close
  else c

end TCPConnection

/-- `TCPServer::Connection`. `id` numbers the accepted connections. -/
structure Connection (Context : Type*) extends TCPConnection where
  id : ℕ
  context : Context
  deriving DecidableEq, Repr

/-- The events of one connection in one round: `POLLHUP`, `POLLIN`, `POLLOUT`, and what the reads and
writes that follow meet. -/
structure Events where
  pollhup : Bool
  pollin : Bool
  pollout : Bool
  read : ReadOutcome
  sent : Bool
  sendTime : UInt32
  deriving DecidableEq, Repr

/-- The answer of `poll`. -/
inductive PollResult
  | error
  | timeout
  | ready
  deriving DecidableEq, Repr

/-- What a round meets. `accept` is the clock at `accept`, when the listening socket is readable and
`accept` succeeds. -/
structure Round where
  currentTime : UInt32
  poll : PollResult
  events : ℕ → Events
  accept : Option UInt32
  /-- a `SIGINT`, `SIGTERM` or `SIGBUS` arrived -/
  signal : Bool

/-- `TCPServer`: what the derived class holds, the connections, the connections already deleted, and
how many were accepted. -/
structure TCPServer (Shared Context : Type*) where
  shared : Shared
  connections : List (Connection Context)
  deleted : List (Connection Context)
  accepted : ℕ

section Process

variable {Shared Context : Type*} (onData : Shared → Connection Context → Shared × Connection Context)

/-- The body of the loop over the connections. `POLLOUT` is asked for only with something to send. -/
def handleEvents (shared : Shared) (c : Connection Context) (ev : Events) : Shared × Connection Context :=
  let asked := c.hasSomethingToSend
  if ev.pollhup then (shared, { c with toTCPConnection := c.reset })
  else
    let (shared, c) :=
      if ev.pollin then onData shared { c with toTCPConnection := c.networkRead ev.read } else (shared, c)
    if ev.pollout && asked then
      (shared, { c with toTCPConnection := c.networkWrite ev.sendTime ev.sent })
    else (shared, c)

/-- The loop over the connections. -/
def handleAll (events : ℕ → Events) :
    Shared → List (Connection Context) → Shared × List (Connection Context)
  | shared, [] => (shared, [])
  | shared, c :: cs =>
    let (shared, c) := handleEvents onData shared c (events c.id)
    let (shared, cs) := handleAll events shared cs
    (shared, c :: cs)

/-- `get_alive_connections`. -/
def TCPServer.keepAlive (s : TCPServer Shared Context) : TCPServer Shared Context :=
  { s with
    connections := s.connections.filter (·.isAlive)
    deleted := s.deleted ++ s.connections.filter (fun c => !c.isAlive) }

/-- `accept_new_connection`. -/
def TCPServer.acceptNew (init : Context) (s : TCPServer Shared Context) :
    Option UInt32 → TCPServer Shared Context
  | some now =>
    { s with
      connections := s.connections ++ [{ TCPConnection.accepted now with id := s.accepted, context := init }]
      accepted := s.accepted + 1 }
  | none => s

/-- `TCPServer::process`. -/
def TCPServer.process (init : Context) (s : TCPServer Shared Context) (r : Round) :
    TCPServer Shared Context :=
  let connections := s.connections.map fun c =>
    { c with toTCPConnection := c.checkTimes r.currentTime }
  match r.poll with
  | .ready =>
    let (shared, connections) := handleAll onData r.events s.shared connections
    (({ s with shared := shared, connections := connections }).acceptNew init r.accept).keepAlive
  | _ => ({ s with connections := connections }).keepAlive

end Process

end DealsServer
