import Ian.Common.Outbound
import Ian.Lib.Framing
import Ian.Lib.Machine

/-!
# The cluster connection

The member functions of `server/common/src/cluster/ClusterConnection.cpp`. All
of them run in the strand of the connection, one at a time: a function is a
state transformer, and an asynchronous operation it starts is recorded in
`pending` until its completion handler runs.

Fields below the line in `Connection` are no members of the class: they log
what the functions do. The timer is only ever cancelled and is left out. The
`onSslHandshake` here assigns the handshake message, as the `TODO` in the
source intends; with `Message.empty` it is the function as it stands.
-/

namespace Ian.Cluster

open Ian.Lib Ian.Common

/-- The layer an operation is started on: the SSL stream or the socket under
it. -/
inductive Layer where
  | ssl
  | clear
deriving DecidableEq, Repr

/-- An asynchronous operation, by its completion handler. A write has the bytes
its buffers hold. -/
inductive AsyncOp where
  | sslHandshake
  | handshakeWrite (data : List UInt8)
  | handshakeRead
  | read (layer : Layer)
  | write (layer : Layer) (data : List UInt8)
  | sslShutdown
deriving DecidableEq, Repr

/-- The bytes an operation writes. -/
def AsyncOp.data : AsyncOp → List UInt8
  | .handshakeWrite data => data
  | .write _ data => data
  | _ => []

def AsyncOp.isHandshakeWrite : AsyncOp → Bool
  | .handshakeWrite _ => true
  | _ => false

def AsyncOp.isMessageWrite : AsyncOp → Bool
  | .write _ _ => true
  | _ => false

def AsyncOp.isRead : AsyncOp → Bool
  | .read _ => true
  | _ => false

structure Connection where
  dropped : Bool
  shuttingDown : Bool
  isWriting : Bool
  safeLink : Bool
  downgraded : Bool
  /-- `socket_.is_open()`. -/
  socketOpen : Bool
  messageQueue : MessageQueue
  messageOutbound : Message
  outMessageLenLe : List UInt8
  inMessageLen : Nat
  readBuffer : List UInt8
  -- Logs.
  /-- Asynchronous operations whose handler has not run yet. -/
  pending : List AsyncOp
  /-- Every asynchronous operation started. -/
  started : List AsyncOp
  /-- The arguments of `process_message`. -/
  delivered : List Message
  /-- Messages that `send_message` took, in the order of the posted bodies. -/
  accepted : List Message
  /-- Messages whose write has completed. -/
  completed : List Message
  /-- The number of calls of `shutdown`. -/
  shutdownCalls : Nat
  /-- The number of times the socket was closed. -/
  closes : Nat
  /-- `on_ian_handshake` has reached its end. -/
  handshakeDone : Bool
  /-- A write has completed with an error. -/
  writeFailed : Bool
  /-- A buffer of an outstanding write was assigned to. -/
  overwritten : Bool
  /-- A null message was dereferenced. -/
  fault : Bool
deriving DecidableEq, Repr

namespace Connection

/-- The connection as its constructor leaves it, with an open socket. -/
def init : Connection :=
  { dropped := false, shuttingDown := false, isWriting := false, safeLink := false,
    downgraded := false, socketOpen := true, messageQueue := .init, messageOutbound := .empty,
    outMessageLenLe := [], inMessageLen := 0, readBuffer := [], pending := [], started := [],
    delivered := [], accepted := [], completed := [], shutdownCalls := 0, closes := 0,
    handshakeDone := false, writeFailed := false, overwritten := false, fault := false }

/-- Start an asynchronous operation. -/
def start (c : Connection) (op : AsyncOp) : Connection :=
  { c with pending := c.pending ++ [op], started := c.started ++ [op] }

/-- A write is outstanding. -/
def writeOutstanding (c : Connection) : Bool :=
  c.pending.any fun op => op.isHandshakeWrite || op.isMessageWrite

/-- `message_outbound_ = message`. -/
def assignOutbound (c : Connection) (message : Message) : Connection :=
  { c with messageOutbound := message, overwritten := c.overwritten || c.writeOutstanding }

/-- `out_message_len_le_ = native_to_little(static_cast<uint32_t>(size))`. -/
def assignLength (c : Connection) (size : Nat) : Connection :=
  { c with outMessageLenLe := le32 size, overwritten := c.overwritten || c.writeOutstanding }

/-- The layer of reads and writes after the handshake. -/
def layer (c : Connection) : Layer := if c.safeLink then .ssl else .clear

def run (c : Connection) (safeLink : Bool) : Connection :=
  if !c.socketOpen then c
  else { c with safeLink, isWriting := true }.start .sslHandshake

def doWriteMessage (c : Connection) (message : Message) : Connection :=
  let c := c.assignOutbound message
  match c.messageOutbound.impl with
  | none => { c with fault := true }
  | some payload =>
    let c := c.assignLength payload.length
    c.start (.write c.layer (c.outMessageLenLe ++ payload))

/-- The body `send_message` posts to the strand. -/
def sendMessageBody (c : Connection) (message : Message) : Connection :=
  if c.dropped || c.shuttingDown then c
  else
    let c := { c with accepted := c.accepted ++ [message] }
    if !c.isWriting then
      { c with isWriting := true }.doWriteMessage message
    else
      match c.messageQueue.push message with
      | none => { c with fault := true }
      | some messageQueue => { c with messageQueue }

/-- `send_message` and the body it posts; an empty message is refused. -/
def sendMessage (c : Connection) (message : Message) : Connection :=
  if message.isEmpty then c else c.sendMessageBody message

/-- `socket_.close()` and `dropped_ = true`. -/
def close (c : Connection) : Connection :=
  { c with socketOpen := false, closes := c.closes + 1, dropped := true }

def abort (c : Connection) : Connection :=
  if c.dropped then c
  else { c with messageQueue := c.messageQueue.clear }.close

def shutdown (c : Connection) : Connection :=
  let c := { c with shutdownCalls := c.shutdownCalls + 1 }
  if c.dropped || c.shuttingDown then c
  else if c.downgraded then c.abort
  else
    let c := { c with messageQueue := c.messageQueue.clear }
    if !c.socketOpen then c
    else { c.start .sslShutdown with shuttingDown := true }

def readNext (c : Connection) : Connection := c.start (.read c.layer)

/-- `handle_read_error` and `handle_write_error`, which differ in the logged
text only. -/
def handleError (c : Connection) (ec : ErrorKind) : Connection :=
  if c.dropped then c
  else
    match ec with
    | .reset => c.abort
    | .canceled => c
    | .other => c.shutdown

def handleReadError (c : Connection) (ec : ErrorKind) : Connection := c.handleError ec

def handleWriteError (c : Connection) (ec : ErrorKind) : Connection :=
  { c with writeFailed := true }.handleError ec

/-- `on_shutdown`; the error code only changes what is logged. -/
def onShutdown (c : Connection) (_ : Except ErrorKind Unit) : Connection :=
  if c.dropped then c else c.close

def onSslHandshake (c : Connection) (handshake : Message) (result : Except ErrorKind Unit) :
    Connection :=
  match result with
  | .error _ => c.abort
  | .ok () =>
    let c := c.assignOutbound handshake
    match c.messageOutbound.impl with
    | none => { c with fault := true }
    | some payload =>
      let c := c.assignLength payload.length
      c.start (.handshakeWrite (c.outMessageLenLe ++ payload))

def onIanHandshakeSent (c : Connection) (result : Except ErrorKind Unit) : Connection :=
  let c := c.assignOutbound .empty
  match result with
  | .error ec => c.handleWriteError ec
  | .ok () => c.start .handshakeRead

/-- Pop the next message and write it, or stop writing: the end of
`on_ian_handshake` and of `on_write_message`. -/
def writeQueued (c : Connection) : Connection :=
  match c.messageQueue.tryPop with
  | none => { c with fault := true }
  | some none => { c with isWriting := false }
  | some (some (message, messageQueue)) => { c with messageQueue }.doWriteMessage message

/-- Read the length off the front of `read_buffer_`. -/
def takeLength (c : Connection) : Connection :=
  { c with inMessageLen := readLe32 c.readBuffer, readBuffer := c.readBuffer.drop 4 }

/-- `on_ian_handshake` from the point where the length is known. -/
def handshakeBody (c : Connection) : Connection :=
  if c.readBuffer.length < c.inMessageLen then c.start .handshakeRead
  else if c.readBuffer.length > c.inMessageLen then c.shutdown
  else
    { c with
      readBuffer := c.readBuffer.drop c.inMessageLen
      inMessageLen := 0
      handshakeDone := true }.readNext.writeQueued

def onIanHandshake (c : Connection) (result : Except ErrorKind (List UInt8)) : Connection :=
  match result with
  | .error ec => c.handleReadError ec
  | .ok chunk =>
    let c := { c with readBuffer := c.readBuffer ++ chunk }
    if c.inMessageLen = 0 then
      if c.readBuffer.length < 4 then c.shutdown
      else
        let c := c.takeLength
        if c.inMessageLen = 0 then c.shutdown else c.handshakeBody
    else c.handshakeBody

/-- Take one message off the front of `read_buffer_` and process it. -/
def takeMessage (c : Connection) : Connection :=
  { c with
    delivered := c.delivered ++ [.fromVector (c.readBuffer.take c.inMessageLen)]
    readBuffer := c.readBuffer.drop c.inMessageLen
    inMessageLen := 0 }

/-- The loop of `on_read`; `none` if `fuel` iterations are not enough. -/
def readLoop : Nat → Connection → Option Connection
  | 0, _ => none
  | fuel + 1, c =>
    if c.inMessageLen = 0 then
      if c.readBuffer.length < 4 then some c.readNext
      else
        let c := c.takeLength
        if c.inMessageLen = 0 then some c.shutdown
        else if c.readBuffer.length < c.inMessageLen then some c.readNext
        else readLoop fuel c.takeMessage
    else if c.readBuffer.length < c.inMessageLen then some c.readNext
    else readLoop fuel c.takeMessage

/-- `on_read`. Every iteration of the loop shortens `read_buffer_`, so the fuel
is enough (`readLoop_isSome`). -/
def onRead (c : Connection) (result : Except ErrorKind (List UInt8)) : Connection :=
  match result with
  | .error ec => c.handleReadError ec
  | .ok chunk =>
    let c := { c with readBuffer := c.readBuffer ++ chunk }
    (readLoop (c.readBuffer.length + 1) c).getD c

def onWriteMessage (c : Connection) (result : Except ErrorKind Unit) : Connection :=
  match result with
  | .error ec => (c.assignOutbound .empty).handleWriteError ec
  | .ok () =>
    { c.assignOutbound .empty with completed := c.completed ++ [c.messageOutbound] }.writeQueued

/-! ## Strand steps -/

/-- What can happen next in the strand: a posted `send_message` body, or the
completion handler of a pending operation. -/
inductive Event where
  | send (message : Message)
  | sslHandshake (result : Except ErrorKind Unit)
  | handshakeSent (result : Except ErrorKind Unit)
  | handshakeRead (result : Except ErrorKind (List UInt8))
  | read (result : Except ErrorKind (List UInt8))
  | wrote (result : Except ErrorKind Unit)
  | shutdownDone (result : Except ErrorKind Unit)

/-- Take the first pending operation that satisfies `p` off the list. -/
def complete (c : Connection) (p : AsyncOp → Bool) : Option Connection :=
  if c.pending.any p then some { c with pending := c.pending.eraseP p } else none

/-- One step in the strand; `handshake` is the payload of the IAN handshake.
Nothing happens any more after a fault. -/
def step (handshake : Message) (c : Connection) (e : Event) : Option Connection :=
  if c.fault then none
  else
    match e with
    | .send message => some (c.sendMessage message)
    | .sslHandshake result =>
      (c.complete (· == .sslHandshake)).map (·.onSslHandshake handshake result)
    | .handshakeSent result =>
      (c.complete AsyncOp.isHandshakeWrite).map (·.onIanHandshakeSent result)
    | .handshakeRead result => (c.complete (· == .handshakeRead)).map (·.onIanHandshake result)
    | .read result => (c.complete AsyncOp.isRead).map (·.onRead result)
    | .wrote result => (c.complete AsyncOp.isMessageWrite).map (·.onWriteMessage result)
    | .shutdownDone result => (c.complete (· == .sslShutdown)).map (·.onShutdown result)

end Connection

end Ian.Cluster
