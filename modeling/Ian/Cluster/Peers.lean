import Ian.Cluster.Writing
import Mathlib.Logic.Function.Basic

/-!
# Two connected peers

Two cluster connections, joined by a reliable ordered byte channel in each
direction. What a side writes is on its way to the other in the order of the
writes, and a read of the other side returns the next bytes of it, as few or as
many as the channel likes. Each side writes a handshake payload first, as the
`TODO` in `on_ssl_handshake` intends.

`on_ian_handshake` does not read its frame as `on_read` does: it shuts down
when the first chunk is shorter than a header, and when a chunk reaches beyond
the handshake. `peers_agree` says that nothing else can go wrong between two
honest peers.
-/

namespace Ian.Cluster

open Ian.Lib Ian.Common FramingLemmas DecodingLemmas

inductive Side where
  | left
  | right
deriving DecidableEq, Repr

def Side.other : Side → Side
  | .left => .right
  | .right => .left

/-- A payload of 1 to 2^32-1 bytes. -/
abbrev Payload : Type := { p : List UInt8 // Framable p }

namespace Connection

/-- All bytes a connection has written or is writing. -/
def wire (c : Connection) : List UInt8 := (c.started.map AsyncOp.data).flatten

/-- The messages that were written or are being written. -/
def written (c : Connection) : List Message := c.completed ++ c.outbound.inFlight

end Connection

/-- Two connections, and how many bytes each has read of what the other
writes. -/
structure Link where
  conn : Side → Connection
  read : Side → Nat

namespace Link

/-- Both ends have been run, in the same link mode. -/
def init (safeLink : Bool) : Link := ⟨fun _ => Connection.init.run safeLink, fun _ => 0⟩

/-- The bytes on their way to a side. -/
def incoming (l : Link) (s : Side) : List UInt8 := (l.conn s.other).wire.drop (l.read s)

/-- One side has changed and has read up to `r`. -/
def set (l : Link) (s : Side) (c : Connection) (r : Nat) : Link :=
  ⟨Function.update l.conn s c, Function.update l.read s r⟩

/-- What can happen next: a side is asked to send, or one of its operations
completes. No operation fails. -/
inductive Event where
  | send (s : Side) (p : Payload)
  | sslHandshake (s : Side)
  | handshakeSent (s : Side)
  | wrote (s : Side)
  | handshakeRead (s : Side) (n : Nat)
  | read (s : Side) (n : Nat)

/-- A strand step of one side. -/
def turn (greeting : Side → Payload) (l : Link) (s : Side) (e : Connection.Event) (r : Nat) :
    Option Link :=
  ((l.conn s).step (.fromVector (greeting s).1) e).map fun c => l.set s c r

/-- A read that returns the next `n` bytes. -/
def readTurn (greeting : Side → Payload) (l : Link) (s : Side) (n : Nat)
    (e : List UInt8 → Connection.Event) : Option Link :=
  if 0 < n ∧ n ≤ (l.incoming s).length then
    l.turn greeting s (e ((l.incoming s).take n)) (l.read s + n)
  else none

def step (greeting : Side → Payload) (l : Link) (e : Event) : Option Link :=
  match e with
  | .send s p => l.turn greeting s (.send (.fromVector p.1)) (l.read s)
  | .sslHandshake s => l.turn greeting s (.sslHandshake (.ok ())) (l.read s)
  | .handshakeSent s => l.turn greeting s (.handshakeSent (.ok ())) (l.read s)
  | .wrote s => l.turn greeting s (.wrote (.ok ())) (l.read s)
  | .handshakeRead s n => l.readTurn greeting s n fun chunk => .handshakeRead (.ok chunk)
  | .read s n => l.readTurn greeting s n fun chunk => .read (.ok chunk)

/-- The reads that `on_ian_handshake` can take: the first returns at least the
four bytes of the header, and none returns bytes beyond the handshake. -/
def ReadsHandshake (greeting : Side → Payload) (l : Link) : Event → Prop
  | .handshakeRead s n =>
    ((l.conn s).inMessageLen = 0 → 4 ≤ n) ∧ l.read s + n ≤ 4 + (greeting s.other).1.length
  | _ => True

instance (greeting : Side → Payload) (l : Link) (e : Event) :
    Decidable (l.ReadsHandshake greeting e) :=
  match e with
  | .handshakeRead _ _ => inferInstanceAs (Decidable (_ ∧ _))
  | .send _ _ | .sslHandshake _ | .handshakeSent _ | .wrote _ | .read _ _ => isTrue trivial

end Link

/-! ## What a side has sent -/

namespace Connection

/-- The outstanding operations of the handshake. -/
def handshakeOps (c : Connection) : List AsyncOp :=
  c.pending.filter fun op => op.isHandshakeWrite || op.isHandshakeWait

/-- How far a side is, by what it has written: nothing, the handshake `g`, or
the handshake and the frames of messages. -/
inductive Phase (g : List UInt8) (c : Connection) : Prop where
  | connecting (ops : c.handshakeOps = [.sslHandshake]) (done : c.handshakeDone = false)
    (wire : c.wire = []) (completed : c.completed = [])
  | greeting (data : List UInt8) (ops : c.handshakeOps = [.handshakeWrite data])
    (done : c.handshakeDone = false) (wire : c.wire = frame g) (completed : c.completed = [])
  | listening (ops : c.handshakeOps = [.handshakeRead]) (done : c.handshakeDone = false)
    (wire : c.wire = frame g) (completed : c.completed = [])
  | talking (ops : c.handshakeOps = []) (done : c.handshakeDone = true)
    (wire : c.wire = frame g ++ frames (c.written.map Message.bytes))

/-- A side that writes as it should and has not been shut down. -/
structure Sending (g : List UInt8) (c : Connection) : Prop where
  ordered : c.outbound.Ordered
  running : c.stopped = false
  closable : c.Closable
  quiet : c.shutdownCalls = 0
  framable : ∀ m ∈ c.accepted, Framable m.bytes
  phase : Phase g c

end Connection

/-! ## What a side has read -/

/-- The inbound side of a connection. -/
structure Inbound where
  done : Bool
  len : Nat
  buffer : List UInt8
  delivered : List Message
  reads : List AsyncOp

def Connection.inbound (c : Connection) : Inbound where
  done := c.handshakeDone
  len := c.inMessageLen
  buffer := c.readBuffer
  delivered := c.delivered
  reads := c.pending.filter AsyncOp.isRead

/-- What a side makes of the bytes it has read from a peer whose handshake is
`g`: nothing yet, a part of the handshake, or the handshake and messages. -/
inductive Receiving (g : List UInt8) : List UInt8 → Inbound → Prop where
  | silent : Receiving g [] ⟨false, 0, [], [], []⟩
  | greeting (buffer : List UInt8) (short : buffer.length < g.length) :
    Receiving g (le32 g.length ++ buffer) ⟨false, g.length, buffer, [], []⟩
  | talking (rest : List UInt8) (payloads : List (List UInt8)) (len : Nat) (buffer : List UInt8)
    (layer : Layer) (hdecode : decode rest = (payloads, .more len buffer)) :
    Receiving g (frame g ++ rest)
      ⟨true, len, buffer, payloads.map .fromVector, [.read layer]⟩

namespace PeersLemmas

open Connection Connection.WritingLemmas

variable {c c' : Connection} {g : List UInt8}

/-- What a side has written starts with its handshake. -/
theorem prefix_greeting (h : Phase g c) {bytes : List UInt8} (hbegins : bytes <+: c.wire)
    (hlen : bytes.length ≤ (frame g).length) : bytes <+: frame g := by
  have hframe : ∀ more, c.wire = frame g ++ more → bytes <+: frame g := by
    intro more hwire
    rw [hwire] at hbegins
    exact List.prefix_of_prefix_length_le hbegins (List.prefix_append _ _) hlen
  cases h with
  | connecting ops done wire completed =>
    rw [wire] at hbegins
    rw [List.prefix_nil.mp hbegins]
    exact List.nil_prefix
  | greeting data ops done wire completed => exact hframe [] (by rw [wire, List.append_nil])
  | listening ops done wire completed => exact hframe [] (by rw [wire, List.append_nil])
  | talking ops done wire => exact hframe _ wire

/-- A write of a message adds its frame to the wire. -/
theorem doWriteMessage_wire (c : Connection) (p : List UInt8) :
    (c.doWriteMessage (.fromVector p)).wire = c.wire ++ frame p := by
  unfold wire
  rw [doWriteMessage_started]
  simp [AsyncOp.data]

theorem doWriteMessage_inFlight (c : Connection) (p : List UInt8) :
    (c.doWriteMessage (.fromVector p)).outbound.inFlight = [.fromVector p] := by
  rw [doWriteMessage_outbound]
  rfl

theorem doWriteMessage_handshakeOps (c : Connection) (p : List UInt8) :
    (c.doWriteMessage (.fromVector p)).handshakeOps = c.handshakeOps := by
  simp [doWriteMessage, assignOutbound, assignLength, start, handshakeOps, Message.fromVector,
    AsyncOp.isHandshakeWrite, AsyncOp.isHandshakeWait]

/-- Writing a message, when none is in flight. -/
theorem doWriteMessage_talking (hops : c.handshakeOps = []) (hdone : c.handshakeDone = true)
    (hwire : c.wire = frame g ++ frames (c.completed.map Message.bytes)) (p : List UInt8) :
    Phase g (c.doWriteMessage (.fromVector p)) := by
  refine .talking ?_ hdone ?_
  · rw [doWriteMessage_handshakeOps, hops]
  · have hcompleted : (c.doWriteMessage (.fromVector p)).completed = c.completed := rfl
    unfold written
    rw [doWriteMessage_wire, doWriteMessage_inFlight, hcompleted, hwire]
    simp [frames]

/-- Writing the next message of the queue, when none is in flight. -/
theorem writeQueued_talking (hops : c.handshakeOps = []) (hdone : c.handshakeDone = true)
    (hqueue : c.messageQueue.Valid) (hnone : c.outbound.inFlight = [])
    (hwire : c.wire = frame g ++ frames (c.completed.map Message.bytes)) :
    Phase g c.writeQueued := by
  unfold writeQueued
  rcases MessageQueue.tryPop_spec hqueue with ⟨hpop, _⟩ | ⟨m, q, hpop, hm, _, _⟩
  · rw [hpop]
    refine .talking hops hdone ?_
    show c.wire = frame g ++ frames ((c.completed ++ c.outbound.inFlight).map _)
    rw [hnone, List.append_nil, hwire]
  · rw [hpop, Message.eq_fromVector hm]
    exact doWriteMessage_talking (c := { c with messageQueue := q }) hops hdone hwire m.bytes

theorem doWriteMessage_frame (c : Connection) (m : Message) :
    (c.doWriteMessage m).stopped = c.stopped ∧
      (c.doWriteMessage m).shutdownCalls = c.shutdownCalls ∧
      (c.doWriteMessage m).accepted = c.accepted := by
  unfold doWriteMessage
  dsimp only
  split <;> exact ⟨rfl, rfl, rfl⟩

theorem writeQueued_frame (c : Connection) : c.writeQueued.stopped = c.stopped ∧
    c.writeQueued.shutdownCalls = c.shutdownCalls ∧ c.writeQueued.accepted = c.accepted := by
  unfold writeQueued
  split
  · exact ⟨rfl, rfl, rfl⟩
  · exact ⟨rfl, rfl, rfl⟩
  · next m q _ => exact doWriteMessage_frame { c with messageQueue := q } m

/-- A step of a side that goes on writing as it should. -/
theorem sending_step (h : Sending g c) {e : Event}
    (hstep : step (.fromVector g) c e = some c') (hrunning : c'.stopped = c.stopped)
    (hquiet : c'.shutdownCalls = c.shutdownCalls)
    (hframable : ∀ m ∈ c'.accepted, Framable m.bytes) (hphase : Phase g c') : Sending g c' := by
  have hrun : c'.stopped = false := hrunning.trans h.running
  refine ⟨?_, hrun, (step_keeps hstep).2 h.closable, hquiet.trans h.quiet, hframable, hphase⟩
  rcases step_outbound (Message.fromVector_isEmpty g) h.closable h.running hstep with hstop | hnext
  · cases hstop.symm.trans hrun
  · exact hnext.ordered h.ordered

/-- A step that takes no message to send. -/
theorem sending_kept (h : Sending g c) {e : Event}
    (hstep : step (.fromVector g) c e = some c')
    (hkept : c'.stopped = c.stopped ∧ c'.shutdownCalls = c.shutdownCalls ∧
      c'.accepted = c.accepted) (hphase : Phase g c') : Sending g c' := by
  obtain ⟨hstopped, hcalls, haccepted⟩ := hkept
  refine sending_step h hstep hstopped hcalls ?_ hphase
  rw [haccepted]
  exact h.framable

theorem phase_congr (h : Phase g c) (hops : c'.handshakeOps = c.handshakeOps)
    (hdone : c'.handshakeDone = c.handshakeDone) (hwire : c'.wire = c.wire)
    (hwritten : c'.completed = c.completed ∧ c'.outbound.inFlight = c.outbound.inFlight) :
    Phase g c' := by
  obtain ⟨hcompleted, hinFlight⟩ := hwritten
  cases h with
  | connecting ops done wire completed =>
    exact .connecting (hops.trans ops) (hdone.trans done) (hwire.trans wire)
      (hcompleted.trans completed)
  | greeting data ops done wire completed =>
    exact .greeting data (hops.trans ops) (hdone.trans done) (hwire.trans wire)
      (hcompleted.trans completed)
  | listening ops done wire completed =>
    exact .listening (hops.trans ops) (hdone.trans done) (hwire.trans wire)
      (hcompleted.trans completed)
  | talking ops done wire =>
    refine .talking (hops.trans ops) (hdone.trans done) ?_
    unfold written
    rw [hcompleted, hinFlight, hwire, wire]
    rfl

/-- A side whose handshake is done. -/
theorem talking_of_done (h : Phase g c) (hdone : c.handshakeDone = true) :
    c.handshakeOps = [] ∧ c.wire = frame g ++ frames (c.written.map Message.bytes) := by
  cases h with
  | connecting ops done wire completed => cases done.symm.trans hdone
  | greeting data ops done wire completed => cases done.symm.trans hdone
  | listening ops done wire completed => cases done.symm.trans hdone
  | talking ops done wire => exact ⟨ops, wire⟩

theorem doWriteMessage_inbound (c : Connection) (p : List UInt8) :
    (c.doWriteMessage (.fromVector p)).inbound = c.inbound := by
  simp [doWriteMessage, assignOutbound, assignLength, start, inbound, Message.fromVector,
    AsyncOp.isRead]

theorem writeQueued_inbound (hqueue : c.messageQueue.Valid) :
    c.writeQueued.inbound = c.inbound := by
  unfold writeQueued
  rcases MessageQueue.tryPop_spec hqueue with ⟨hpop, _⟩ | ⟨m, q, hpop, hm, _, _⟩
  · rw [hpop]
    rfl
  · rw [hpop, Message.eq_fromVector hm]
    exact doWriteMessage_inbound { c with messageQueue := q } m.bytes

theorem writeQueued_wire (hqueue : c.messageQueue.Valid) : c.wire <+: c.writeQueued.wire := by
  unfold writeQueued
  rcases MessageQueue.tryPop_spec hqueue with ⟨hpop, _⟩ | ⟨m, q, hpop, hm, _, _⟩
  · rw [hpop]
    exact List.prefix_refl c.wire
  · rw [hpop, Message.eq_fromVector hm]
    exact ⟨_, (doWriteMessage_wire { c with messageQueue := q } m.bytes).symm⟩

/-! ## Steps that read nothing -/

/-- The side goes on, has written at least what it had, and has read nothing. -/
structure Goes (g : List UInt8) (c c' : Connection) : Prop where
  sending : Sending g c'
  wire : c.wire <+: c'.wire
  inbound : c'.inbound = c.inbound

theorem send_goes (h : Sending g c) (p : Payload)
    (hstep : step (.fromVector g) c (.send (.fromVector p.1)) = some c') : Goes g c c' := by
  have hflags := flags_of_running h.running
  have hbody : c' = c.sendMessage (.fromVector p.1) := by
    unfold step at hstep
    split at hstep
    · cases hstep
    · exact (Option.some.inj hstep).symm
  have hframable : ∀ m ∈ c.accepted ++ [Message.fromVector p.1], Framable m.bytes := by
    intro m hm
    rcases List.mem_append.mp hm with hm | hm
    · exact h.framable m hm
    · rw [List.mem_singleton.mp hm]
      exact p.2
  unfold sendMessage sendMessageBody at hbody
  rw [if_neg (by simp), if_neg (by simp [hflags])] at hbody
  dsimp only at hbody
  by_cases hw : c.isWriting = true
  · obtain ⟨q, hpush, _, _⟩ := MessageQueue.push_spec h.ordered.queue
      (Message.fromVector_isEmpty p.1)
    have hpush' : c.messageQueue.push (.fromVector p.1) = some q := hpush
    rw [if_neg (by simp [hw]), hpush'] at hbody
    subst hbody
    exact ⟨sending_step h hstep rfl rfl hframable (phase_congr h.phase rfl rfl rfl ⟨rfl, rfl⟩),
      List.prefix_refl c.wire, rfl⟩
  · have hidle : c.isWriting = false := Bool.eq_false_iff.mpr hw
    rw [if_pos (by simp [hidle])] at hbody
    have hdone : c.handshakeDone = true := by
      cases hd : c.handshakeDone with
      | true => rfl
      | false => cases hidle.symm.trans (h.ordered.handshake hd).2.1
    obtain ⟨hops, hwire⟩ := talking_of_done h.phase hdone
    have hnone : c.outbound.inFlight = [] := (h.ordered.idle hidle).2
    unfold written at hwire
    rw [hnone, List.append_nil] at hwire
    have hphase := doWriteMessage_talking
      (c := { c with accepted := c.accepted ++ [.fromVector p.1], isWriting := true })
      hops hdone hwire p.1
    subst hbody
    exact ⟨sending_step h hstep rfl rfl hframable hphase,
      ⟨_, (doWriteMessage_wire { c with
        accepted := c.accepted ++ [.fromVector p.1], isWriting := true } p.1).symm⟩,
      doWriteMessage_inbound { c with
        accepted := c.accepted ++ [.fromVector p.1], isWriting := true } p.1⟩

/-- The operation of the handshake that completes is the outstanding one. -/
theorem handshakeOps_any {p : AsyncOp → Bool}
    (hp : ∀ op, p op = true → (op.isHandshakeWrite || op.isHandshakeWait) = true)
    (hany : c.pending.any p = true) : c.handshakeOps.any p = true := by
  obtain ⟨op, hmem, hop⟩ := List.any_eq_true.mp hany
  exact List.any_eq_true.mpr ⟨op, List.mem_filter.mpr ⟨hmem, hp op hop⟩, hop⟩

theorem handshakeOps_without {p : AsyncOp → Bool}
    (hp : ∀ op, p op = true → (op.isHandshakeWrite || op.isHandshakeWait) = true) :
    (c.without p).handshakeOps = c.handshakeOps.eraseP p := by
  have hboth : (fun op => p op && (op.isHandshakeWrite || op.isHandshakeWait)) = p := by
    funext op
    cases hop : p op with
    | false => rfl
    | true => exact hp op hop
  unfold handshakeOps
  rw [List.eraseP_filter, hboth]
  rfl

/-- Completing an operation that is no read leaves the inbound side alone. -/
theorem without_inbound {p : AsyncOp → Bool} (hp : ∀ op, p op = true → op.isRead = false) :
    (c.without p).inbound = c.inbound := by
  unfold inbound
  exact congrArg (fun reads => Inbound.mk c.handshakeDone c.inMessageLen c.readBuffer c.delivered
    reads) (filter_eraseP_of_disjoint hp c.pending)

theorem isSslHandshake_handshake (op : AsyncOp) (h : (op == AsyncOp.sslHandshake) = true) :
    (op.isHandshakeWrite || op.isHandshakeWait) = true := by
  rw [eq_of_beq h]
  rfl

theorem isHandshakeWrite_handshake (op : AsyncOp) (h : op.isHandshakeWrite = true) :
    (op.isHandshakeWrite || op.isHandshakeWait) = true := by
  rw [h]
  rfl

theorem isHandshakeRead_handshake (op : AsyncOp) (h : (op == AsyncOp.handshakeRead) = true) :
    (op.isHandshakeWrite || op.isHandshakeWait) = true := by
  rw [eq_of_beq h]
  rfl

/-- The operation of the handshake that completes tells how far the side is. -/
theorem sslHandshake_connecting (h : Sending g c)
    (hany : c.pending.any (· == .sslHandshake) = true) :
    c.handshakeOps = [.sslHandshake] ∧ c.handshakeDone = false ∧ c.wire = [] ∧
      c.completed = [] := by
  have hmem := handshakeOps_any isSslHandshake_handshake hany
  cases h.phase with
  | connecting ops done wire completed => exact ⟨ops, done, wire, completed⟩
  | greeting data ops done wire completed =>
    rw [ops] at hmem
    cases hmem
  | listening ops done wire completed =>
    rw [ops] at hmem
    cases hmem
  | talking ops done wire =>
    rw [ops] at hmem
    cases hmem

theorem handshakeSent_greeting (h : Sending g c)
    (hany : c.pending.any AsyncOp.isHandshakeWrite = true) :
    ∃ data, c.handshakeOps = [.handshakeWrite data] ∧ c.handshakeDone = false ∧
      c.wire = frame g ∧ c.completed = [] := by
  have hmem := handshakeOps_any isHandshakeWrite_handshake hany
  cases h.phase with
  | connecting ops done wire completed =>
    rw [ops] at hmem
    cases hmem
  | greeting data ops done wire completed => exact ⟨data, ops, done, wire, completed⟩
  | listening ops done wire completed =>
    rw [ops] at hmem
    cases hmem
  | talking ops done wire =>
    rw [ops] at hmem
    cases hmem

/-- Only a side that has sent its handshake waits for the peer's. -/
theorem handshakeRead_listening (h : Sending g c)
    (hany : c.pending.any (· == .handshakeRead) = true) :
    c.handshakeOps = [.handshakeRead] ∧ c.handshakeDone = false ∧ c.wire = frame g ∧
      c.completed = [] := by
  have hmem := handshakeOps_any isHandshakeRead_handshake hany
  cases h.phase with
  | connecting ops done wire completed =>
    rw [ops] at hmem
    cases hmem
  | greeting data ops done wire completed =>
    rw [ops] at hmem
    cases hmem
  | listening ops done wire completed => exact ⟨ops, done, wire, completed⟩
  | talking ops done wire =>
    rw [ops] at hmem
    cases hmem

theorem sslHandshake_goes (h : Sending g c)
    (hstep : step (.fromVector g) c (.sslHandshake (.ok ())) = some c') : Goes g c c' := by
  obtain ⟨hany, hc'⟩ := handler_cases hstep
  obtain ⟨hops, hdone, hempty, hcompleted⟩ := sslHandshake_connecting h hany
  have hreads : (c.without (· == .sslHandshake)).inbound = c.inbound :=
    without_inbound fun op hop => by rw [eq_of_beq hop]; rfl
  have hwire : c'.wire = c.wire ++ frame g := by
    rw [hc']
    simp [onSslHandshake, assignOutbound, assignLength, start, wire, without, Message.fromVector,
      AsyncOp.data, frame]
  have hafter : c'.handshakeOps =
      (c.without (· == .sslHandshake)).handshakeOps ++ [.handshakeWrite (frame g)] := by
    rw [hc']
    simp [onSslHandshake, assignOutbound, assignLength, start, handshakeOps, without,
      Message.fromVector, AsyncOp.isHandshakeWrite, frame]
  rw [handshakeOps_without isSslHandshake_handshake, hops] at hafter
  have hinbound : c'.inbound = (c.without (· == .sslHandshake)).inbound := by
    rw [hc']
    simp [onSslHandshake, assignOutbound, assignLength, start, inbound, Message.fromVector,
      AsyncOp.isRead]
  have hphase : Phase g c' := by
    refine .greeting (frame g) hafter ?_ (by rw [hwire, hempty, List.nil_append]) ?_
    · rw [hc']
      exact hdone
    · rw [hc']
      exact hcompleted
  exact ⟨sending_kept h hstep (by rw [hc']; exact ⟨rfl, rfl, rfl⟩) hphase, ⟨_, hwire.symm⟩,
    hinbound.trans hreads⟩

theorem handshakeSent_goes (h : Sending g c)
    (hstep : step (.fromVector g) c (.handshakeSent (.ok ())) = some c') : Goes g c c' := by
  obtain ⟨hany, hc'⟩ := handler_cases hstep
  obtain ⟨data, hops, hdone, hgreeted, hcompleted⟩ := handshakeSent_greeting h hany
  have hreads : (c.without AsyncOp.isHandshakeWrite).inbound = c.inbound :=
    without_inbound fun op hop => by cases op <;> first | rfl | cases hop
  have hwire : c'.wire = c.wire := by
    rw [hc']
    simp [onIanHandshakeSent, assignOutbound, start, wire, without, AsyncOp.data]
  have hafter : c'.handshakeOps =
      (c.without AsyncOp.isHandshakeWrite).handshakeOps ++ [.handshakeRead] := by
    rw [hc']
    simp [onIanHandshakeSent, assignOutbound, start, handshakeOps, AsyncOp.isHandshakeWait]
  rw [handshakeOps_without isHandshakeWrite_handshake, hops] at hafter
  have hinbound : c'.inbound = (c.without AsyncOp.isHandshakeWrite).inbound := by
    rw [hc']
    simp [onIanHandshakeSent, assignOutbound, start, inbound, AsyncOp.isRead]
  have hphase : Phase g c' := by
    refine .listening hafter ?_ (hwire.trans hgreeted) ?_
    · rw [hc']
      exact hdone
    · rw [hc']
      exact hcompleted
  exact ⟨sending_kept h hstep (by rw [hc']; exact ⟨rfl, rfl, rfl⟩) hphase,
    ⟨[], by rw [hwire, List.append_nil]⟩, hinbound.trans hreads⟩

theorem wrote_goes (h : Sending g c)
    (hstep : step (.fromVector g) c (.wrote (.ok ())) = some c') : Goes g c c' := by
  obtain ⟨hany, hc'⟩ := handler_cases hstep
  have hcount := countP_eraseP_of_imp (q := AsyncOp.isMessageWrite) (fun _ hop => hop) hany
  have hwrites : 0 < c.outbound.messageWrites := countP_pos_of_any (fun _ hop => hop) hany
  have hdone : c.handshakeDone = true := by
    cases hd : c.handshakeDone with
    | true => rfl
    | false => exact absurd (h.ordered.handshake hd).1 (Nat.ne_of_gt hwrites)
  obtain ⟨hops, hwire⟩ := talking_of_done h.phase hdone
  have hinFlight : c.outbound.inFlight = [c.messageOutbound] := if_neg (Nat.ne_of_gt hwrites)
  unfold written at hwire
  rw [hinFlight] at hwire
  have hreads : (c.without AsyncOp.isMessageWrite).inbound = c.inbound :=
    without_inbound fun op hop => by cases op <;> first | rfl | cases hop
  have hopsWithout : (c.without AsyncOp.isMessageWrite).handshakeOps = [] := by
    rw [← hops]
    exact filter_eraseP_of_disjoint (fun op hop => by cases op <;> first | rfl | cases hop) _
  have hidle : (c.pending.eraseP AsyncOp.isMessageWrite).countP AsyncOp.isMessageWrite = 0 := by
    have hsingle : c.pending.countP AsyncOp.isMessageWrite +
        c.pending.countP AsyncOp.isHandshakeWrite ≤ 1 := h.ordered.single
    omega
  obtain ⟨c1, hc1⟩ : ∃ c1, c1 = { (c.without AsyncOp.isMessageWrite).assignOutbound .empty with
      completed := c.completed ++ [c.messageOutbound] } := ⟨_, rfl⟩
  have hqueued : c' = c1.writeQueued := by
    rw [hc', hc1]
    rfl
  have hvalid : c1.messageQueue.Valid := by
    rw [hc1]
    exact h.ordered.queue
  have hkept := writeQueued_frame c1
  rw [← hqueued, hc1] at hkept
  have hidle1 : c1.outbound.inFlight = [] := by
    rw [hc1]
    exact if_pos hidle
  have hphase : Phase g c1.writeQueued := by
    refine writeQueued_talking ?_ ?_ hvalid hidle1 ?_
    · rw [hc1]
      exact hopsWithout
    · rw [hc1]
      exact hdone
    · rw [hc1]
      exact hwire
  refine ⟨sending_kept h hstep hkept (by rw [hqueued]; exact hphase), ?_, ?_⟩
  · rw [hqueued]
    have hbegins := writeQueued_wire hvalid
    rw [hc1] at hbegins ⊢
    exact hbegins
  · rw [hqueued, writeQueued_inbound hvalid, ← hreads, hc1]
    rfl

/-! ## Reading messages -/

variable {g' got : List UInt8}

/-- What a peer has written after its handshake are frames of messages it has
taken. -/
theorem peer_frames (h : Sending g' c) {bytes : List UInt8}
    (hbegins : frame g' ++ bytes <+: c.wire) :
    ∃ ms, ms <+: c.accepted ∧ bytes <+: frames (ms.map Message.bytes) := by
  have hnone : frame g' ++ bytes <+: frame g' →
      ∃ ms, ms <+: c.accepted ∧ bytes <+: frames (ms.map Message.bytes) := by
    intro hframe
    have hlen := hframe.length_le
    rw [List.length_append] at hlen
    have hnil : bytes = [] := List.length_eq_zero_iff.mp (by omega)
    exact ⟨[], List.nil_prefix, by rw [hnil]; exact List.nil_prefix⟩
  cases h.phase with
  | connecting ops done wire completed =>
    rw [wire] at hbegins
    exact hnone (hbegins.trans List.nil_prefix)
  | greeting data ops done wire completed =>
    rw [wire] at hbegins
    exact hnone hbegins
  | listening ops done wire completed =>
    rw [wire] at hbegins
    exact hnone hbegins
  | talking ops done wire =>
    rw [wire] at hbegins
    refine ⟨c.written, ⟨_, h.ordered.order.symm⟩, ?_⟩
    exact (List.prefix_append_right_inj _).mp hbegins

theorem framable_of_begins {ms accepted : List Message} (hms : ms <+: accepted)
    (haccepted : ∀ m ∈ accepted, Framable m.bytes) : ∀ p ∈ ms.map Message.bytes, Framable p := by
  intro p hp
  obtain ⟨m, hm, rfl⟩ := List.mem_map.mp hp
  exact haccepted m (hms.subset hm)

/-- Messages of at least one byte are the messages of their bytes. -/
theorem map_fromVector_bytes {ms : List Message} (h : ∀ m ∈ ms, Framable m.bytes) :
    (ms.map Message.bytes).map Message.fromVector = ms := by
  have hself : ∀ m ∈ ms, Message.fromVector m.bytes = m := by
    intro m hm
    obtain ⟨impl⟩ := m
    cases impl with
    | none => exact absurd (h _ hm).1 (Nat.lt_irrefl 0)
    | some data => rfl
  rw [List.map_map]
  exact (List.map_congr_left hself).trans (List.map_id ms)

/-- What a side has delivered is a prefix of what its peer has taken. -/
theorem delivered_prefix {peer : Connection} (hpeer : Sending g' peer)
    (hrecv : Receiving g' got c.inbound) (hgot : got <+: peer.wire) :
    c.delivered <+: peer.accepted := by
  have hdelivered : c.delivered = c.inbound.delivered := rfl
  rw [hdelivered]
  generalize c.inbound = inb at hrecv
  cases hrecv with
  | silent => exact List.nil_prefix
  | greeting buffer short => exact List.nil_prefix
  | talking rest payloads len buffer layer hdecode =>
    obtain ⟨ms, hms, hrest⟩ := peer_frames hpeer hgot
    obtain ⟨more, hmore⟩ := hrest
    obtain ⟨_, _, _, hpayloads⟩ :=
      decode_of_append_frames (framable_of_begins hms hpeer.framable) hmore
    rw [hdecode] at hpayloads
    have hbegins := hpayloads.map Message.fromVector
    rw [map_fromVector_bytes fun m hm => hpeer.framable m (hms.subset hm)] at hbegins
    exact hbegins.trans hms

theorem readNext_handshakeOps (c : Connection) : c.readNext.handshakeOps = c.handshakeOps := by
  simp [readNext, start, handshakeOps, AsyncOp.isHandshakeWrite, AsyncOp.isHandshakeWait]

theorem readNext_wire (c : Connection) : c.readNext.wire = c.wire := by
  simp [readNext, start, wire, AsyncOp.data]

/-- Reading on does not touch what a side writes. -/
theorem readNext_sends (h : Sending g c) {payloads : List (List UInt8)} {len : Nat}
    {buffer : List UInt8} {e : Event} (hstep : step (.fromVector g) c e = some c')
    (hend : c' = (decoded (c.without AsyncOp.isRead) payloads len buffer).readNext) :
    Sending g c' ∧ c.wire <+: c'.wire := by
  have hwire : c'.wire = c.wire := by
    rw [hend, readNext_wire]
    rfl
  have hops : c'.handshakeOps = c.handshakeOps := by
    rw [hend, readNext_handshakeOps]
    exact filter_eraseP_of_disjoint
      (fun op hop => by rcases isRead_cases op hop with rfl | ⟨_, rfl⟩ <;> rfl) c.pending
  have houtbound : c'.outbound = c.outbound := by
    rw [hend, readNext_outbound]
    have hwithout : (c.without AsyncOp.isRead).outbound = c.outbound := erase_other isRead_cases
    exact hwithout
  have hphase : Phase g c' := by
    refine phase_congr h.phase hops ?_ hwire ⟨?_, by rw [houtbound]⟩
    · rw [hend]
      rfl
    · rw [hend]
      rfl
  exact ⟨sending_kept h hstep (by rw [hend]; exact ⟨rfl, rfl, rfl⟩) hphase,
    ⟨[], by rw [hwire, List.append_nil]⟩⟩

/-- A read of the data stream: it is never rejected, and what has been read
decodes to what has been delivered. -/
theorem read_goes (h : Sending g c) (hrecv : Receiving g' got c.inbound) {peer : Connection}
    (hpeer : Sending g' peer) {chunk : List UInt8} (hgot : got ++ chunk <+: peer.wire)
    (hstep : step (.fromVector g) c (.read (.ok chunk)) = some c') :
    Sending g c' ∧ c.wire <+: c'.wire ∧ Receiving g' (got ++ chunk) c'.inbound := by
  obtain ⟨hany, hc'⟩ := handler_cases hstep
  have hreading : c.reading = true := hany
  generalize hinb : c.inbound = inb at hrecv
  have hreads : c.pending.filter AsyncOp.isRead = inb.reads := by rw [← hinb]; rfl
  cases hrecv with
  | silent =>
    rw [reading_eq, hreads] at hreading
    cases hreading
  | greeting buffer short =>
    rw [reading_eq, hreads] at hreading
    cases hreading
  | talking rest payloads len buffer layer hdecode =>
    injection hinb with hdone hlen hbuffer hdelivered _
    -- The peer's frames go on, so this chunk is not rejected.
    rw [List.append_assoc] at hgot
    obtain ⟨ms, hms, more, hmore⟩ := peer_frames hpeer hgot
    obtain ⟨len', buffer', htail, _⟩ :=
      decode_of_append_frames (framable_of_begins hms hpeer.framable) hmore
    have happ := decode_append rest chunk
    rw [hdecode] at happ
    dsimp only at happ
    rw [happ] at htail
    have hend := onRead_decode (c.without AsyncOp.isRead) chunk (by
      show c.inMessageLen < 2 ^ 32
      rw [hlen]
      exact (decode_unfinished (by rw [hdecode])).2)
    rw [← hc'] at hend
    unfold loopEnd at hend
    have hunf : unfinished (c.without AsyncOp.isRead).inMessageLen
        (c.without AsyncOp.isRead).readBuffer = unfinished len buffer := by
      rw [← hlen, ← hbuffer]
      rfl
    rw [hunf, htail] at hend
    dsimp only at hend
    obtain ⟨hsending, hext⟩ := readNext_sends h hstep hend
    refine ⟨hsending, hext, ?_⟩
    have hinbound : c'.inbound = ⟨true, len', buffer',
        (payloads ++ (decode (unfinished len buffer ++ chunk)).1).map .fromVector,
        [.read c.layer]⟩ := by
      have hlast :
          (c.pending.eraseP AsyncOp.isRead ++ [AsyncOp.read c.layer]).filter AsyncOp.isRead =
          [.read c.layer] := by
        rw [List.filter_append, filter_eraseP_self, hreads]
        rfl
      rw [hend, List.map_append, ← hdelivered, ← hdone]
      exact congrArg (Inbound.mk _ _ _ _) hlast
    rw [hinbound, List.append_assoc]
    refine .talking _ _ _ _ _ ?_
    rw [happ, htail]

/-! ## Reading the handshake -/

theorem isHandshakeRead_cases (op : AsyncOp) (hop : (op == AsyncOp.handshakeRead) = true) :
    op = .sslHandshake ∨ op = .handshakeRead := Or.inr (eq_of_beq hop)

/-- A side that has just got a part of the peer's handshake. -/
structure Hearing (g : List UInt8) (c : Connection) : Prop where
  ops : c.handshakeOps = []
  reads : c.pending.filter AsyncOp.isRead = []
  wire : c.wire = frame g
  completed : c.completed = []
  delivered : c.delivered = []
  done : c.handshakeDone = false
  idle : c.outbound.inFlight = []
  queue : c.messageQueue.Valid

theorem hearing_without (h : Sending g c) (hops : c.handshakeOps = [.handshakeRead])
    (hany : c.pending.any (· == .handshakeRead) = true) (hdone : c.handshakeDone = false)
    (hwire : c.wire = frame g) (hcompleted : c.completed = [])
    (hinb : c.delivered = [] ∧ c.pending.filter AsyncOp.isRead = []) :
    Hearing g (c.without (· == .handshakeRead)) where
  ops := by
    rw [handshakeOps_without isHandshakeRead_handshake, hops]
    rfl
  reads := by
    rw [← hinb.2]
    exact filter_eraseP_of_disjoint (fun op hop => by rw [eq_of_beq hop]; rfl) c.pending
  wire := hwire
  completed := hcompleted
  delivered := hinb.1
  done := hdone
  idle := by
    rw [erase_handshakeWait isHandshakeRead_cases hany]
    exact if_pos (h.ordered.handshake hdone).1
  queue := h.ordered.queue

theorem handshakeRead_listens (h : Hearing g c) (hlen : c.inMessageLen = g'.length)
    (hshort : c.readBuffer.length < g'.length) :
    Phase g (c.start .handshakeRead) ∧
      Receiving g' (le32 g'.length ++ c.readBuffer) (c.start .handshakeRead).inbound := by
  constructor
  · refine .listening ?_ h.done ?_ h.completed
    · have hops := h.ops
      unfold handshakeOps at hops ⊢
      show (c.pending ++ [AsyncOp.handshakeRead]).filter _ = _
      rw [List.filter_append, hops]
      rfl
    · rw [← h.wire]
      simp [start, wire, AsyncOp.data]
  · have hinbound : (c.start .handshakeRead).inbound =
        ⟨false, g'.length, c.readBuffer, [], []⟩ := by
      have hreads := h.reads
      simp [start, inbound, hreads, h.done, hlen, h.delivered, AsyncOp.isRead]
    rw [hinbound]
    exact .greeting _ hshort

theorem handshake_talks (h : Hearing g c) {c1 : Connection}
    (hc1 : c1 = { c with readBuffer := [], inMessageLen := 0, handshakeDone := true }) :
    Phase g c1.readNext.writeQueued ∧ c.wire <+: c1.readNext.writeQueued.wire ∧
      Receiving g' (frame g') c1.readNext.writeQueued.inbound := by
  have hqueue : c1.readNext.messageQueue.Valid := by
    rw [hc1]
    exact h.queue
  have hwire : c1.readNext.wire = c.wire := by
    rw [readNext_wire, hc1]
    rfl
  refine ⟨?_, ?_, ?_⟩
  · refine writeQueued_talking ?_ ?_ hqueue ?_ ?_
    · rw [readNext_handshakeOps, hc1]
      exact h.ops
    · rw [hc1]
      rfl
    · rw [readNext_outbound, hc1]
      exact h.idle
    · have hcompleted : c1.readNext.completed = [] := by
        rw [hc1]
        exact h.completed
      rw [hwire, h.wire, hcompleted]
      simp [frames]
  · rw [← hwire]
    exact writeQueued_wire hqueue
  · have hinbound : c1.readNext.inbound = ⟨true, 0, [], [], [.read c1.layer]⟩ := by
      have hreads := h.reads
      rw [hc1]
      simp [readNext, start, inbound, hreads, h.delivered, AsyncOp.isRead]
    rw [writeQueued_inbound hqueue, hinbound, ← List.append_nil (frame g')]
    exact .talking [] [] 0 [] c1.layer decode_nil

/-- A part of the peer's handshake is read: the side reads on, or its handshake
is done and it starts to write what is queued. -/
theorem handshakeBody_goes (h : Hearing g c) (hlen : c.inMessageLen = g'.length)
    (hbuffer : c.readBuffer <+: g') :
    (c.handshakeBody.stopped = c.stopped ∧ c.handshakeBody.shutdownCalls = c.shutdownCalls ∧
      c.handshakeBody.accepted = c.accepted) ∧ Phase g c.handshakeBody ∧
      c.wire <+: c.handshakeBody.wire ∧
      Receiving g' (le32 g'.length ++ c.readBuffer) c.handshakeBody.inbound := by
  unfold handshakeBody
  rw [hlen]
  by_cases hshort : c.readBuffer.length < g'.length
  · rw [if_pos hshort]
    obtain ⟨hphase, hrecv⟩ := handshakeRead_listens h hlen hshort
    refine ⟨⟨rfl, rfl, rfl⟩, hphase, ⟨[], ?_⟩, hrecv⟩
    simp [start, wire, AsyncOp.data]
  · have hwhole : c.readBuffer = g' :=
      hbuffer.eq_of_length (Nat.le_antisymm hbuffer.length_le (Nat.not_lt.mp hshort))
    rw [hwhole, if_neg (Nat.lt_irrefl _), if_neg (Nat.lt_irrefl _), List.drop_length]
    exact ⟨writeQueued_frame _, handshake_talks h rfl⟩

/-- The first bytes of a frame, when they hold its header. -/
theorem header_of_begins (hg : Framable g') {chunk : List UInt8} (hbegins : chunk <+: frame g')
    (h4 : 4 ≤ chunk.length) :
    readLe32 chunk = g'.length ∧ le32 g'.length ++ chunk.drop 4 = chunk ∧ chunk.drop 4 <+: g' := by
  have hread : readLe32 chunk = g'.length := by
    obtain ⟨more, hmore⟩ := hbegins
    rw [← readLe32_append h4 more, hmore, frame, readLe32_le32, Nat.mod_eq_of_lt hg.2]
  have hchunk : le32 g'.length ++ chunk.drop 4 = chunk := by
    rw [← hread]
    exact le32_readLe32 h4
  refine ⟨hread, hchunk, ?_⟩
  rw [← hchunk, frame] at hbegins
  exact (List.prefix_append_right_inj _).mp hbegins

/-- Both kinds of chunk end in `handshakeBody`, with the length and what there is
of the payload. -/
theorem handshakeBody_sends (h : Sending g c)
    (hany : c.pending.any (· == .handshakeRead) = true)
    (hnothing : c.delivered = [] ∧ c.pending.filter AsyncOp.isRead = []) {buffer : List UInt8}
    (hbuffer : buffer <+: g') {e : Event} (hstep : step (.fromVector g) c e = some c')
    (hc' : c' = handshakeBody { c.without (· == .handshakeRead) with
      inMessageLen := g'.length
      readBuffer := buffer }) :
    Sending g c' ∧ c.wire <+: c'.wire ∧ Receiving g' (le32 g'.length ++ buffer) c'.inbound := by
  obtain ⟨hops, hdone, hwire, hcompleted⟩ := handshakeRead_listening h hany
  have hhear := hearing_without h hops hany hdone hwire hcompleted hnothing
  obtain ⟨hkept, hphase, hext, hrecv⟩ :=
    handshakeBody_goes (c := { c.without (· == .handshakeRead) with
      inMessageLen := g'.length
      readBuffer := buffer }) ⟨hhear.ops, hhear.reads, hhear.wire, hhear.completed,
        hhear.delivered, hhear.done, hhear.idle, hhear.queue⟩ rfl hbuffer
  rw [← hc'] at hkept hphase hext hrecv
  exact ⟨sending_kept h hstep hkept hphase, hext, hrecv⟩

/-- A read of the handshake that returns the header first and nothing beyond the
handshake. -/
theorem handshakeRead_goes (h : Sending g c) (hrecv : Receiving g' got c.inbound)
    (hg : Framable g') {chunk : List UInt8} (hfirst : c.inMessageLen = 0 → 4 ≤ chunk.length)
    (hgot : got ++ chunk <+: frame g')
    (hstep : step (.fromVector g) c (.handshakeRead (.ok chunk)) = some c') :
    Sending g c' ∧ c.wire <+: c'.wire ∧ Receiving g' (got ++ chunk) c'.inbound := by
  obtain ⟨hany, hc'⟩ := handler_cases hstep
  generalize hinb : c.inbound = inb at hrecv
  unfold onIanHandshake at hc'
  dsimp only at hc'
  cases hrecv with
  | silent =>
    injection hinb with _ hlen hbuffer hdelivered hreads
    have h4 := hfirst hlen
    rw [List.nil_append] at hgot ⊢
    obtain ⟨hread, hchunk, hrest⟩ := header_of_begins hg hgot h4
    have hlen1 : (c.without (· == .handshakeRead)).inMessageLen = 0 := hlen
    have hbuffer1 : (c.without (· == .handshakeRead)).readBuffer = [] := hbuffer
    rw [if_pos hlen1, hbuffer1, List.nil_append, if_neg (Nat.not_lt.mpr h4)] at hc'
    have hne : ¬readLe32 chunk = 0 := by
      rw [hread]
      exact Nat.ne_of_gt hg.1
    have hbody : c' = handshakeBody { c.without (· == .handshakeRead) with
        inMessageLen := g'.length
        readBuffer := chunk.drop 4 } := by
      rw [hc', ← hread]
      exact if_neg hne
    have hgoes := handshakeBody_sends h hany ⟨hdelivered, hreads⟩ hrest hstep hbody
    rw [hchunk] at hgoes
    exact hgoes
  | greeting buffer short =>
    injection hinb with _ hlen hbuffer hdelivered hreads
    have hlen1 : (c.without (· == .handshakeRead)).inMessageLen = g'.length := hlen
    have hbuffer1 : (c.without (· == .handshakeRead)).readBuffer = buffer := hbuffer
    rw [if_neg (by rw [hlen1]; exact Nat.ne_of_gt hg.1), hbuffer1] at hc'
    rw [List.append_assoc] at hgot ⊢
    refine handshakeBody_sends h hany ⟨hdelivered, hreads⟩
      ((List.prefix_append_right_inj _).mp hgot) hstep ?_
    rw [hc', ← hlen]
    rfl
  | talking rest payloads len buffer layer hdecode =>
    injection hinb with hdone
    cases (handshakeRead_listening h hany).2.1.symm.trans hdone

end PeersLemmas

/-! ## Both sides -/

open PeersLemmas Connection

/-- Both sides write as they should, and each has made the right thing of what
it has read. -/
structure Link.Agreed (greeting : Side → Payload) (l : Link) : Prop where
  sending : ∀ s, Sending (greeting s).1 (l.conn s)
  bound : ∀ s, l.read s ≤ (l.conn s.other).wire.length
  receiving : ∀ s,
    Receiving (greeting s.other).1 ((l.conn s.other).wire.take (l.read s)) (l.conn s).inbound

namespace PeersLemmas

variable {greeting : Side → Payload} {l l' : Link}

theorem other_ne (s : Side) : s.other ≠ s := by cases s <;> decide

theorem other_other (s : Side) : s.other.other = s := by cases s <;> rfl

theorem eq_or_other (s t : Side) : t = s ∨ t = s.other := by
  cases s <;> cases t <;> simp [Side.other]

/-- One side goes on; the other has not read anything new. -/
theorem agreed_set (h : l.Agreed greeting) (s : Side) {c : Connection} {r : Nat}
    (hsending : Sending (greeting s).1 c) (hwire : (l.conn s).wire <+: c.wire)
    (hbound : r ≤ (l.conn s.other).wire.length)
    (hreceiving : Receiving (greeting s.other).1 ((l.conn s.other).wire.take r) c.inbound) :
    (l.set s c r).Agreed greeting := by
  have hconn : (l.set s c r).conn s = c := Function.update_self ..
  have hread : (l.set s c r).read s = r := Function.update_self ..
  have hconn' : (l.set s c r).conn s.other = l.conn s.other :=
    Function.update_of_ne (other_ne s) ..
  have hread' : (l.set s c r).read s.other = l.read s.other :=
    Function.update_of_ne (other_ne s) ..
  obtain ⟨more, hmore⟩ := hwire
  refine ⟨fun t => ?_, fun t => ?_, fun t => ?_⟩
  · rcases eq_or_other s t with rfl | rfl
    · rw [hconn]
      exact hsending
    · rw [hconn']
      exact h.sending s.other
  · rcases eq_or_other s t with rfl | rfl
    · rw [hread, hconn']
      exact hbound
    · have hold := h.bound s.other
      rw [other_other] at hold ⊢
      rw [hread', hconn, ← hmore, List.length_append]
      exact Nat.le_add_right_of_le hold
  · rcases eq_or_other s t with rfl | rfl
    · rw [hconn, hread, hconn']
      exact hreceiving
    · have hold := h.receiving s.other
      have hle := h.bound s.other
      rw [other_other] at hold hle ⊢
      rw [hconn', hread', hconn, ← hmore, List.take_append_of_le_length hle]
      exact hold

/-- A step that reads nothing. -/
theorem turn_agreed (h : l.Agreed greeting) {s : Side} {e : Connection.Event}
    (hgoes : ∀ c, (l.conn s).step (.fromVector (greeting s).1) e = some c →
      Goes (greeting s).1 (l.conn s) c)
    (hturn : l.turn greeting s e (l.read s) = some l') : l'.Agreed greeting := by
  obtain ⟨c, hstep, rfl⟩ := Option.map_eq_some_iff.mp hturn
  obtain ⟨hsending, hwire, hinbound⟩ := hgoes c hstep
  refine agreed_set h s hsending hwire (h.bound s) ?_
  rw [hinbound]
  exact h.receiving s

/-- A step that reads the next bytes. -/
theorem readTurn_agreed (h : l.Agreed greeting) {s : Side} {n : Nat}
    {e : List UInt8 → Connection.Event}
    (hgoes : ∀ chunk c, chunk.length = n →
      (l.conn s.other).wire.take (l.read s) ++ chunk <+: (l.conn s.other).wire →
      (l.conn s).step (.fromVector (greeting s).1) (e chunk) = some c →
      Sending (greeting s).1 c ∧ (l.conn s).wire <+: c.wire ∧ Receiving (greeting s.other).1
        ((l.conn s.other).wire.take (l.read s) ++ chunk) c.inbound)
    (hturn : l.readTurn greeting s n e = some l') : l'.Agreed greeting := by
  unfold Link.readTurn at hturn
  split at hturn
  · next hn =>
    obtain ⟨c, hstep, rfl⟩ := Option.map_eq_some_iff.mp hturn
    have hincoming : l.incoming s = (l.conn s.other).wire.drop (l.read s) := rfl
    rw [hincoming] at hn hstep
    have htake : (l.conn s.other).wire.take (l.read s) ++
        ((l.conn s.other).wire.drop (l.read s)).take n =
        (l.conn s.other).wire.take (l.read s + n) := List.take_add.symm
    have hlen : (((l.conn s.other).wire.drop (l.read s)).take n).length = n :=
      List.length_take_of_le hn.2
    obtain ⟨hsending, hwire, hreceiving⟩ := hgoes _ c hlen
      (by rw [htake]; exact List.take_prefix _ _) hstep
    rw [htake] at hreceiving
    refine agreed_set h s hsending hwire ?_ hreceiving
    have hbound := h.bound s
    rw [List.length_drop] at hn
    omega
  · cases hturn

theorem step_agreed (h : l.Agreed greeting) {e : Link.Event} (hC : l.ReadsHandshake greeting e)
    (hstep : l.step greeting e = some l') : l'.Agreed greeting := by
  cases e with
  | send s p => exact turn_agreed h (fun c hc => send_goes (h.sending s) p hc) hstep
  | sslHandshake s => exact turn_agreed h (fun c hc => sslHandshake_goes (h.sending s) hc) hstep
  | handshakeSent s => exact turn_agreed h (fun c hc => handshakeSent_goes (h.sending s) hc) hstep
  | wrote s => exact turn_agreed h (fun c hc => wrote_goes (h.sending s) hc) hstep
  | handshakeRead s n =>
    obtain ⟨hfirst, hwithin⟩ := hC
    have hturn : l.readTurn greeting s n (fun chunk => .handshakeRead (.ok chunk)) = some l' :=
      hstep
    refine readTurn_agreed h (fun chunk c hlen hgot hc => ?_) hturn
    refine handshakeRead_goes (h.sending s) (h.receiving s) (greeting s.other).2
      (by rw [hlen]; exact hfirst) ?_ hc
    refine prefix_greeting (h.sending s.other).phase hgot ?_
    rw [List.length_append, hlen, List.length_take_of_le (h.bound s)]
    simp only [frame, List.length_append, length_le32]
    exact hwithin
  | read s n =>
    have hturn : l.readTurn greeting s n (fun chunk => .read (.ok chunk)) = some l' := hstep
    refine readTurn_agreed h (fun chunk c _ hgot hc => ?_) hturn
    exact read_goes (h.sending s) (h.receiving s) (h.sending s.other) hgot hc

theorem init_agreed (safeLink : Bool) : (Link.init safeLink).Agreed greeting where
  sending s := by
    refine ⟨?_, rfl, fun _ => rfl, rfl, nofun, .connecting rfl rfl rfl rfl⟩
    exact ⟨rfl, Nat.zero_le 1, rfl, nofun, nofun, MessageQueue.valid_init,
      fun _ => ⟨rfl, rfl, Nat.le_refl 1⟩, nofun, rfl⟩
  bound _ := Nat.zero_le _
  receiving _ := .silent

end PeersLemmas

/-- Two honest peers, whose reads of the handshake return the header first and
nothing beyond the handshake, never shut down, and each delivers a prefix of
what the other has taken. -/
theorem peers_agree (greeting : Side → Payload) (safeLink : Bool) (es : List Link.Event) (l : Link)
    (hC : AllSteps (Link.step greeting) (Link.ReadsHandshake greeting) (Link.init safeLink) es)
    (hrun : runEvents (Link.step greeting) (Link.init safeLink) es = some l) (s : Side) :
    (l.conn s).shutdownCalls = 0 ∧ (l.conn s).delivered <+: (l.conn s.other).accepted := by
  have hagreed : l.Agreed greeting :=
    run_invariant_of (fun _ _ _ hI hCe hstep => step_agreed hI hCe hstep) (init_agreed safeLink) hC
      hrun
  exact ⟨(hagreed.sending s).quiet,
    delivered_prefix (hagreed.sending s.other) (hagreed.receiving s) (List.take_prefix _ _)⟩

/-- A run in which each side greets the other and one message goes each way. -/
theorem peers_agree_exchange : ∃ es l,
    AllSteps (Link.step fun _ => ⟨[9], by decide⟩) (Link.ReadsHandshake fun _ => ⟨[9], by decide⟩)
      (Link.init true) es ∧
    runEvents (Link.step fun _ => ⟨[9], by decide⟩) (Link.init true) es = some l ∧
    (l.conn .left).delivered = [.fromVector [5, 6]] ∧
    (l.conn .right).delivered = [.fromVector [7]] ∧
    (l.conn .left).shutdownCalls = 0 ∧ (l.conn .left).delivered <+: (l.conn .right).accepted := by
  refine ⟨[.send .right ⟨[5, 6], by decide⟩, .sslHandshake .left, .handshakeSent .left,
    .sslHandshake .right, .handshakeSent .right, .handshakeRead .right 5, .handshakeRead .left 4,
    .handshakeRead .left 1, .send .left ⟨[7], by decide⟩, .read .left 3, .read .left 3,
    .read .right 5], ?_, ?allSteps, ?run, ?_, ?_, peers_agree _ true _ _ ?allSteps ?run .left⟩
  case allSteps => decide
  case run => rfl
  all_goals rfl

/-- Honest peers that shut down: a first chunk of one byte, and a peer whose
first message arrives together with its handshake. -/
theorem honest_peers_shut_down :
    (∃ l : Link, runEvents (Link.step fun _ => ⟨[9], by decide⟩) (Link.init true)
      [.sslHandshake .left, .handshakeSent .left, .sslHandshake .right, .handshakeRead .left 1] =
        some l ∧ (l.conn .left).shutdownCalls = 1) ∧
    ∃ l : Link, runEvents (Link.step fun _ => ⟨[9], by decide⟩) (Link.init true)
      [.send .right ⟨[5, 6], by decide⟩, .sslHandshake .left, .handshakeSent .left,
        .sslHandshake .right, .handshakeSent .right, .handshakeRead .right 5,
        .handshakeRead .left 11] = some l ∧ (l.conn .left).shutdownCalls = 1 :=
  ⟨⟨_, rfl, rfl⟩, ⟨_, rfl, rfl⟩⟩

end Ian.Cluster
