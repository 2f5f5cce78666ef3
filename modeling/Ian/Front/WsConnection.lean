import Ian.Common.Outbound
import Ian.Lib.Machine
import Ian.Lib.Timer
import Mathlib.Algebra.Ring.Int.Defs

/-!
# The websocket connection

The member functions of `server/front/src/ws/WsConnection.cpp`. As in the
cluster connection, all of them run in the strand, an asynchronous operation is
`pending` until its completion handler runs, and the fields below the line log
what the functions do. Times are ticks of the steady clock, which are
nanoseconds.

`on_control_frame` is never installed, and nothing calls `set_state_timeout`
and `cancel_state_timeout`; they are left out.
-/

namespace Ian.Front

open Ian.Lib Ian.Common

/-- The configuration values of `FrontGlobals` that connections read. -/
structure Settings where
  connectionLimitSoft : Int
  rateLimitMessages : Int
  rateLimitBytes : Int
  wsSetupTimeout : Int
  wsTimeout : Int
deriving DecidableEq, Repr

/-- The defaults of `FrontGlobals`. -/
def defaultSettings : Settings := ⟨1000, 100, 0x8000, 3, 30⟩

/-- An asynchronous operation, by its completion handler. -/
inductive WsOp where
  | sslHandshake
  | requestRead
  | wsHandshake
  | read
  | write (data : List UInt8)
  | sslShutdown
deriving DecidableEq, Repr

def WsOp.isWrite : WsOp → Bool
  | .write _ => true
  | _ => false

/-- A request as `on_read_request` sees it: whether it asks for an upgrade to
websocket, and what was read beyond it. -/
structure Request where
  isUpgrade : Bool
  leftover : List UInt8
deriving DecidableEq, Repr

/-- An answer to a request that is not upgraded. -/
structure Response where
  status : Nat
  body : String
deriving DecidableEq, Repr

/-- The timers of a connection. -/
inductive TimerId where
  | timer
  | stateTimer
deriving DecidableEq, Repr

structure WsConnection where
  dropped : Bool
  shuttingDown : Bool
  isWriting : Bool
  /-- `socket_.is_open()`. -/
  socketOpen : Bool
  timer : Timer Unit
  stateTimer : Timer Unit
  messageQueue : MessageQueue
  messageOutbound : Message
  readBuffer : List UInt8
  rateLimitStart : Int
  rateLimitMessages : Int
  rateLimitBytes : Nat
  /-- The steady clock. -/
  now : Int
  -- Logs.
  /-- Asynchronous operations whose handler has not run yet. -/
  pending : List WsOp
  /-- Every asynchronous operation started. -/
  started : List WsOp
  /-- Answers written to requests that are not upgraded. -/
  responses : List Response
  /-- The arguments of `process_message`. -/
  delivered : List Message
  /-- Messages that `send_message` took, in the order of the posted bodies. -/
  accepted : List Message
  /-- Messages whose write has completed. -/
  completed : List Message
  /-- The number of times the socket was closed. -/
  closes : Nat
  /-- `on_ws_handshake` has run without an error. -/
  upgraded : Bool
  /-- A write has completed with an error. -/
  writeFailed : Bool
  /-- The buffer of an outstanding write was assigned to. -/
  overwritten : Bool
  /-- A null message was dereferenced. -/
  fault : Bool
deriving DecidableEq, Repr

namespace WsConnection

/-- The connection as its constructor leaves it at time `now`. -/
def init (now : Int) : WsConnection :=
  { dropped := false, shuttingDown := false, isWriting := false, socketOpen := true,
    timer := .init, stateTimer := .init, messageQueue := .init, messageOutbound := .empty,
    readBuffer := [], rateLimitStart := now, rateLimitMessages := 0, rateLimitBytes := 0,
    now, pending := [], started := [], responses := [], delivered := [], accepted := [],
    completed := [], closes := 0, upgraded := false, writeFailed := false, overwritten := false,
    fault := false }

/-- Start an asynchronous operation. -/
def start (c : WsConnection) (op : WsOp) : WsConnection :=
  { c with pending := c.pending ++ [op], started := c.started ++ [op] }

/-- `message_outbound_ = message`. -/
def assignOutbound (c : WsConnection) (message : Message) : WsConnection :=
  { c with
    messageOutbound := message
    overwritten := c.overwritten || c.pending.any WsOp.isWrite }

def setTimeout (c : WsConnection) (delay : Int) : WsConnection :=
  { c with timer := ((c.timer.cancel).expiresFromNow c.now delay).asyncWait () }

def run (settings : Settings) (c : WsConnection) : WsConnection :=
  if !c.socketOpen then c
  else (c.setTimeout (seconds settings.wsSetupTimeout)).start .sslHandshake

def doWriteMessage (c : WsConnection) (message : Message) : WsConnection :=
  let c := c.assignOutbound message
  match c.messageOutbound.impl with
  | none => { c with fault := true }
  | some payload => c.start (.write payload)

/-- The body `send_message` posts to the strand. -/
def sendMessageBody (c : WsConnection) (message : Message) : WsConnection :=
  if c.dropped || c.shuttingDown then c
  else
    let c := { c with accepted := c.accepted ++ [message] }
    if !c.isWriting then
      { c with isWriting := true }.doWriteMessage message
    else
      match c.messageQueue.push message with
      | none => { c with fault := true }
      | some messageQueue => { c with messageQueue }

/-- `send_message` and the body it posts; an empty message is refused. -/
def sendMessage (c : WsConnection) (message : Message) : WsConnection :=
  if message.isEmpty then c else c.sendMessageBody message

/-- What `abort` and `shutdown` do first. -/
def cancelAll (c : WsConnection) : WsConnection :=
  { c with
    timer := c.timer.cancel
    stateTimer := c.stateTimer.cancel
    messageQueue := c.messageQueue.clear }

/-- `socket_.close()` and `dropped_ = true`. -/
def close (c : WsConnection) : WsConnection :=
  { c with socketOpen := false, closes := c.closes + 1, dropped := true }

def abort (c : WsConnection) : WsConnection :=
  if c.dropped then c else c.cancelAll.close

def shutdown (c : WsConnection) : WsConnection :=
  if c.dropped || c.shuttingDown then c
  else
    let c := c.cancelAll
    if !c.socketOpen then c
    else { c.start .sslShutdown with shuttingDown := true }

/-- `check_rate_limit`; the flag says that the connection was aborted. The cast
of `front::rate_limit_bytes` wraps a negative value. -/
def checkRateLimit (settings : Settings) (c : WsConnection) : Bool × WsConnection :=
  if c.rateLimitMessages > settings.rateLimitMessages ||
      c.rateLimitBytes > (settings.rateLimitBytes % 2 ^ 64).toNat then
    if c.now - c.rateLimitStart > seconds 1 then
      (false, { c with rateLimitStart := c.now, rateLimitMessages := 0, rateLimitBytes := 0 })
    else (true, c.abort)
  else (false, c)

/-- `on_timeout`, given how its wait ended. -/
def onTimeout (c : WsConnection) (state : WaitState) : WsConnection :=
  if c.dropped || state = .aborted then c else c.abort

/-- `on_shutdown`; the error code only changes what is logged. -/
def onShutdown (c : WsConnection) (_ : Except ErrorKind Unit) : WsConnection :=
  if c.dropped then c else c.close

/-- `handle_read_error` and `handle_write_error`, which differ in the logged
text only. -/
def handleError (c : WsConnection) (ec : ErrorKind) : WsConnection :=
  if c.dropped then c
  else
    match ec with
    | .reset => c.abort
    | .canceled => c
    | .other => c.shutdown

def handleReadError (c : WsConnection) (ec : ErrorKind) : WsConnection := c.handleError ec

def handleWriteError (c : WsConnection) (ec : ErrorKind) : WsConnection :=
  { c with writeFailed := true }.handleError ec

def onSslHandshake (c : WsConnection) (result : Except ErrorKind Unit) : WsConnection :=
  match result with
  | .error _ => c.abort
  | .ok () => c.start .requestRead

/-- Answer a request without upgrading, and shut down. -/
def respond (c : WsConnection) (response : Response) : WsConnection :=
  { c with responses := c.responses ++ [response] }.shutdown

def onReadRequest (settings : Settings) (c : WsConnection) (result : Except ErrorKind Request)
    (activeConnectionCount : Int) : WsConnection :=
  match result with
  | .error ec => c.handleReadError ec
  | .ok request =>
    let c := { c with readBuffer := c.readBuffer ++ request.leftover }
    let c := if 0 < c.readBuffer.length then { c with readBuffer := [] } else c
    if activeConnectionCount > settings.connectionLimitSoft then
      c.respond ⟨503, "Overloaded"⟩
    else if request.isUpgrade then c.start .wsHandshake
    else c.respond ⟨501, "Not implemented"⟩

def onWsHandshake (settings : Settings) (c : WsConnection) (result : Except ErrorKind Unit) :
    WsConnection :=
  if c.dropped then c
  else
    match result with
    | .error _ => c.shutdown
    | .ok () =>
      ({ c with upgraded := true }.setTimeout (seconds (settings.wsTimeout + 5))).start .read

/-- A message read from the stream, and `stream_.got_binary()`. -/
structure Inbound where
  data : List UInt8
  gotBinary : Bool
deriving DecidableEq, Repr

/-- `on_read`. The read has appended one whole message to `read_buffer_`, and
`readlen` is its length. -/
def onRead (settings : Settings) (c : WsConnection) (result : Except ErrorKind Inbound) :
    WsConnection :=
  match result with
  | .error ec => c.handleReadError ec
  | .ok inbound =>
    let readlen := inbound.data.length
    let c := { c with
      readBuffer := c.readBuffer ++ inbound.data
      rateLimitMessages := c.rateLimitMessages + 1
      rateLimitBytes := (c.rateLimitBytes + readlen) % 2 ^ 64 }
    match c.checkRateLimit settings with
    | (true, c) => c
    | (false, c) =>
      if !inbound.gotBinary then c.shutdown
      else
        let buf := c.readBuffer.take readlen
        let c := { c with readBuffer := c.readBuffer.drop readlen }.start .read
        let c :=
          if c.timer.expiry - c.now ≤ seconds settings.wsTimeout then
            c.setTimeout (seconds (settings.wsTimeout + 5))
          else c
        { c with delivered := c.delivered ++ [.fromVector buf] }

/-- Pop the next message and write it, or stop writing: the end of
`on_write_message`. -/
def writeQueued (c : WsConnection) : WsConnection :=
  match c.messageQueue.tryPop with
  | none => { c with fault := true }
  | some none => { c with isWriting := false }
  | some (some (message, messageQueue)) => { c with messageQueue }.doWriteMessage message

def onWriteMessage (c : WsConnection) (result : Except ErrorKind Unit) : WsConnection :=
  match result with
  | .error ec => (c.assignOutbound .empty).handleWriteError ec
  | .ok () =>
    { c.assignOutbound .empty with completed := c.completed ++ [c.messageOutbound] }.writeQueued

/-! ## Strand steps -/

/-- What can happen next: a posted `send_message` body, the completion handler
of a pending operation, or that time goes on and a timer expires. The handler
of a request reads the number of active connections. -/
inductive WsEvent where
  | send (message : Message)
  | sslHandshake (result : Except ErrorKind Unit)
  | requestRead (result : Except ErrorKind Request) (activeConnectionCount : Int)
  | wsHandshake (result : Except ErrorKind Unit)
  | read (result : Except ErrorKind Inbound)
  | wrote (result : Except ErrorKind Unit)
  | shutdownDone (result : Except ErrorKind Unit)
  | tick (duration : Nat)
  | expire (id : TimerId)
  | timeout (id : TimerId) (i : Nat)

/-- Take the first pending operation that satisfies `p` off the list. -/
def complete (c : WsConnection) (p : WsOp → Bool) : Option WsConnection :=
  if c.pending.any p then some { c with pending := c.pending.eraseP p } else none

def getTimer (c : WsConnection) : TimerId → Timer Unit
  | .timer => c.timer
  | .stateTimer => c.stateTimer

def setTimer (c : WsConnection) (t : Timer Unit) : TimerId → WsConnection
  | .timer => { c with timer := t }
  | .stateTimer => { c with stateTimer := t }

/-- One step in the strand. Nothing happens any more after a fault. -/
def step (settings : Settings) (c : WsConnection) (e : WsEvent) : Option WsConnection :=
  if c.fault then none
  else
    match e with
    | .send message => some (c.sendMessage message)
    | .sslHandshake result => (c.complete (· == .sslHandshake)).map (·.onSslHandshake result)
    | .requestRead result active =>
      (c.complete (· == .requestRead)).map (·.onReadRequest settings result active)
    | .wsHandshake result => (c.complete (· == .wsHandshake)).map (·.onWsHandshake settings result)
    | .read result => (c.complete (· == .read)).map (·.onRead settings result)
    | .wrote result => (c.complete WsOp.isWrite).map (·.onWriteMessage result)
    | .shutdownDone result => (c.complete (· == .sslShutdown)).map (·.onShutdown result)
    | .tick duration => some { c with now := c.now + duration }
    | .expire id => ((c.getTimer id).expire c.now).map fun t => c.setTimer t id
    | .timeout id i =>
      ((c.getTimer id).take i).map fun (w, t) => (c.setTimer t id).onTimeout w.state

end WsConnection

end Ian.Front
