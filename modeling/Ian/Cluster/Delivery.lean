import Ian.Cluster.Peers
import Ian.Lib.Progress

/-!
# Two honest peers finish

What `peers_agree` says of every moment, that each side has delivered a prefix
of what the other has taken, becomes all of it once the peers are left alone:
from any state they reach, the exchange goes on until every message is
delivered, in whatever order the operations complete, and it is over after at
most `Link.left` steps (`peers_finish`). The messages may be cut into chunks
anyhow, but the handshakes only as `on_ian_handshake` can take them.
-/

namespace Ian.Cluster

open Ian.Lib Ian.Common FramingLemmas DecodingLemmas

/-- The operations before a connection has nothing to do but to read: the
handshake up to its first read, and a write for each message that waits or is
being written. -/
def Connection.work (c : Connection) : Nat :=
  2 * c.pending.countP (· == .sslHandshake) + c.pending.countP AsyncOp.isHandshakeWrite +
    c.pending.countP AsyncOp.isMessageWrite + c.messageQueue.queue.length

namespace Link

def Event.isSend : Event → Bool
  | .send _ _ => true
  | _ => false

/-- What happens without a call of `send_message`. -/
def Settling (greeting : Side → Payload) (l : Link) (e : Event) : Prop :=
  l.ReadsHandshake greeting e ∧ e.isSend = false

instance (greeting : Side → Payload) (l : Link) (e : Event) : Decidable (l.Settling greeting e) :=
  inferInstanceAs (Decidable (_ ∧ _))

/-- The bytes a side writes for its handshake and the messages it has taken. -/
def total (greeting : Side → Payload) (l : Link) (s : Side) : Nat :=
  (frame (greeting s).1).length + (frames ((l.conn s).accepted.map Message.bytes)).length

/-- What is left to do for a side: its operations, and the bytes it has to
read. -/
def leftAt (greeting : Side → Payload) (l : Link) (s : Side) : Nat :=
  (l.conn s).work + (l.total greeting s.other - l.read s)

/-- A bound on the steps before everything is delivered. -/
def left (greeting : Side → Payload) (l : Link) : Nat :=
  l.leftAt greeting .left + l.leftAt greeting .right

end Link

namespace DeliveryLemmas

open Connection Connection.WritingLemmas PeersLemmas

variable {c c' : Connection} {g g' got : List UInt8}

/-! ## Work -/

theorem start_work (c : Connection) (op : AsyncOp) (hssl : (op == .sslHandshake) = false)
    (hgreeting : op.isHandshakeWrite = false) (hwrite : op.isMessageWrite = false) :
    (c.start op).work = c.work := by
  simp [start, work, List.countP_append, hssl, hgreeting, hwrite]

theorem doWriteMessage_work (c : Connection) (p : List UInt8) :
    (c.doWriteMessage (.fromVector p)).work = c.work + 1 := by
  simp only [doWriteMessage, assignOutbound, assignLength, start, work, Message.fromVector,
    List.countP_append, List.countP_singleton, AsyncOp.isHandshakeWrite, AsyncOp.isMessageWrite]
  simp
  omega

/-- Popping a message and starting its write is no progress yet. -/
theorem writeQueued_work (hvalid : c.messageQueue.Valid) : c.writeQueued.work = c.work := by
  unfold writeQueued
  rcases MessageQueue.tryPop_spec hvalid with ⟨hpop, _⟩ | ⟨m, q, hpop, hm, _, hpending⟩
  · rw [hpop]
    rfl
  · have hlen : c.messageQueue.queue.length = q.queue.length + 1 := by
      have h := congrArg List.length hpending
      simpa [MessageQueue.pending] using h
    rw [hpop, Message.eq_fromVector hm]
    show (doWriteMessage { c with messageQueue := q } (.fromVector m.bytes)).work = _
    rw [doWriteMessage_work]
    simp only [work, hlen]
    omega

theorem shutdown_work (c : Connection) : c.shutdown.work ≤ c.work := by
  unfold shutdown abort close
  dsimp only
  split
  · exact Nat.le_refl _
  split
  · split
    · exact Nat.le_refl _
    · simp only [work, MessageQueue.clear, MessageQueue.init, List.length_nil]
      omega
  split
  · simp only [work, MessageQueue.clear, MessageQueue.init, List.length_nil]
    omega
  · have hstart := start_work { c with
      shutdownCalls := c.shutdownCalls + 1
      messageQueue := c.messageQueue.clear } .sslShutdown rfl rfl rfl
    refine Nat.le_trans (Nat.le_of_eq hstart) ?_
    simp only [work, MessageQueue.clear, MessageQueue.init, List.length_nil]
    omega

/-! ## Completions -/

theorem without_sslHandshake_work (hany : c.pending.any (· == .sslHandshake) = true) :
    (c.without (· == .sslHandshake)).work + 2 = c.work := by
  have hdisjoint : ∀ q : AsyncOp → Bool, q .sslHandshake = false →
      (c.pending.eraseP (· == .sslHandshake)).countP q = c.pending.countP q := fun q hq =>
    countP_eraseP_of_disjoint (fun op hop => by rw [eq_of_beq hop]; exact hq) c.pending
  have hcount := countP_eraseP_of_imp (q := (· == AsyncOp.sslHandshake)) (fun _ hop => hop) hany
  simp only [without, work]
  rw [hdisjoint AsyncOp.isHandshakeWrite rfl, hdisjoint AsyncOp.isMessageWrite rfl]
  omega

theorem without_handshakeWrite_work (hany : c.pending.any AsyncOp.isHandshakeWrite = true) :
    (c.without AsyncOp.isHandshakeWrite).work + 1 = c.work := by
  have hssl := countP_eraseP_of_disjoint (p := AsyncOp.isHandshakeWrite) (q := (· == .sslHandshake))
    (fun op hop => by cases op <;> first | rfl | cases hop) c.pending
  have hwrites := countP_eraseP_of_disjoint (p := AsyncOp.isHandshakeWrite)
    (q := AsyncOp.isMessageWrite) (fun op hop => by cases op <;> first | rfl | cases hop) c.pending
  have hcount := countP_eraseP_of_imp (q := AsyncOp.isHandshakeWrite) (fun _ hop => hop) hany
  simp only [without, work]
  rw [hssl, hwrites]
  omega

theorem without_messageWrite_work (hany : c.pending.any AsyncOp.isMessageWrite = true) :
    (c.without AsyncOp.isMessageWrite).work + 1 = c.work := by
  have hssl := countP_eraseP_of_disjoint (p := AsyncOp.isMessageWrite) (q := (· == .sslHandshake))
    (fun op hop => by cases op <;> first | rfl | cases hop) c.pending
  have hgreetings := countP_eraseP_of_disjoint (p := AsyncOp.isMessageWrite)
    (q := AsyncOp.isHandshakeWrite) (fun op hop => by cases op <;> first | rfl | cases hop)
    c.pending
  have hcount := countP_eraseP_of_imp (q := AsyncOp.isMessageWrite) (fun _ hop => hop) hany
  simp only [without, work]
  rw [hssl, hgreetings]
  omega

theorem without_work_le (c : Connection) (p : AsyncOp → Bool) : (c.without p).work ≤ c.work := by
  have hle : ∀ q : AsyncOp → Bool, (c.pending.eraseP p).countP q ≤ c.pending.countP q :=
    fun q => List.eraseP_sublist.countP_le
  have hssl := hle (· == .sslHandshake)
  have hgreetings := hle AsyncOp.isHandshakeWrite
  have hwrites := hle AsyncOp.isMessageWrite
  simp only [without, work]
  omega

/-! ## Handlers -/

theorem onSslHandshake_work (c : Connection) (g : List UInt8) :
    (c.onSslHandshake (.fromVector g) (.ok ())).work = c.work + 1 := by
  simp only [onSslHandshake, assignOutbound, assignLength, start, work, Message.fromVector,
    List.countP_append, List.countP_singleton, AsyncOp.isHandshakeWrite, AsyncOp.isMessageWrite]
  simp
  omega

theorem handshakeBody_work (hvalid : c.messageQueue.Valid) : c.handshakeBody.work ≤ c.work := by
  unfold handshakeBody
  split
  · exact Nat.le_of_eq (start_work c _ rfl rfl rfl)
  split
  · exact shutdown_work c
  · obtain ⟨c1, hc1⟩ : ∃ c1, c1 = { c with
        readBuffer := c.readBuffer.drop c.inMessageLen
        inMessageLen := 0
        handshakeDone := true } := ⟨_, rfl⟩
    have hwork1 : c1.work = c.work := by rw [hc1]; rfl
    have hread : c1.readNext.work = c1.work := start_work c1 _ rfl rfl rfl
    have hqueued : c1.readNext.writeQueued.work = c1.readNext.work :=
      writeQueued_work (by rw [hc1]; exact hvalid)
    have hall := Nat.le_of_eq (hqueued.trans (hread.trans hwork1))
    rw [hc1] at hall
    exact hall

theorem onIanHandshake_work (hvalid : c.messageQueue.Valid) (chunk : List UInt8) :
    (c.onIanHandshake (.ok chunk)).work ≤ c.work := by
  have hshutdown : ∀ len buffer,
      ({ c with inMessageLen := len, readBuffer := buffer } : Connection).shutdown.work ≤ c.work :=
    fun len buffer => shutdown_work { c with inMessageLen := len, readBuffer := buffer }
  have hbody : ∀ len buffer,
      (handshakeBody { c with inMessageLen := len, readBuffer := buffer }).work ≤ c.work :=
    fun len buffer =>
      handshakeBody_work (c := { c with inMessageLen := len, readBuffer := buffer }) hvalid
  unfold onIanHandshake
  dsimp only
  split
  · split
    · exact hshutdown _ _
    split
    · exact hshutdown _ _
    · exact hbody _ _
  · exact hbody _ _

theorem onRead_work (c : Connection) (chunk : List UInt8) :
    (c.onRead (.ok chunk)).work ≤ c.work := by
  obtain ⟨payloads, len, rest, hend | hend⟩ := onRead_cases c chunk
  · rw [hend]
    exact Nat.le_of_eq (start_work (decoded c payloads len rest) _ rfl rfl rfl)
  · rw [hend]
    exact shutdown_work (decoded c payloads len rest)

/-- What a side has left to do when the handler of an operation has run. -/
theorem sslHandshake_work (hstep : step (.fromVector g) c (.sslHandshake (.ok ())) = some c') :
    c'.work < c.work := by
  obtain ⟨hany, hc'⟩ := handler_cases hstep
  have hwithout := without_sslHandshake_work hany
  rw [hc', onSslHandshake_work]
  omega

theorem handshakeSent_work (hstep : step (.fromVector g) c (.handshakeSent (.ok ())) = some c') :
    c'.work < c.work := by
  obtain ⟨hany, hc'⟩ := handler_cases hstep
  have hwork : ((c.without AsyncOp.isHandshakeWrite).onIanHandshakeSent (.ok ())).work =
      (c.without AsyncOp.isHandshakeWrite).work := start_work _ _ rfl rfl rfl
  rw [hc', hwork, ← without_handshakeWrite_work hany]
  exact Nat.lt_succ_self _

theorem wrote_work (hvalid : c.messageQueue.Valid)
    (hstep : step (.fromVector g) c (.wrote (.ok ())) = some c') : c'.work < c.work := by
  obtain ⟨hany, hc'⟩ := handler_cases hstep
  obtain ⟨c1, hc1⟩ : ∃ c1, c1 = { (c.without AsyncOp.isMessageWrite).assignOutbound .empty with
      completed := c.completed ++ [c.messageOutbound] } := ⟨_, rfl⟩
  have hqueued : c' = c1.writeQueued := by
    rw [hc', hc1]
    rfl
  have hwork1 : c1.work = (c.without AsyncOp.isMessageWrite).work := by rw [hc1]; rfl
  rw [hqueued, writeQueued_work (by rw [hc1]; exact hvalid), hwork1,
    ← without_messageWrite_work hany]
  exact Nat.lt_succ_self _

theorem handshakeRead_work (hvalid : c.messageQueue.Valid) {chunk : List UInt8}
    (hstep : step (.fromVector g) c (.handshakeRead (.ok chunk)) = some c') :
    c'.work ≤ c.work := by
  obtain ⟨_, hc'⟩ := handler_cases hstep
  rw [hc']
  exact Nat.le_trans (onIanHandshake_work (c := c.without (· == .handshakeRead)) hvalid chunk)
    (without_work_le c _)

theorem read_work {chunk : List UInt8}
    (hstep : step (.fromVector g) c (.read (.ok chunk)) = some c') : c'.work ≤ c.work := by
  obtain ⟨_, hc'⟩ := handler_cases hstep
  rw [hc']
  exact Nat.le_trans (onRead_work _ chunk) (without_work_le c _)

/-! ## What a side has taken stays as it is -/

theorem shutdown_accepted (c : Connection) : c.shutdown.accepted = c.accepted := by
  unfold shutdown abort close
  dsimp only
  split_ifs <;> rfl

theorem handshakeBody_accepted (c : Connection) : c.handshakeBody.accepted = c.accepted := by
  unfold handshakeBody
  split
  · rfl
  split
  · exact shutdown_accepted c
  · exact (writeQueued_frame _).2.2

theorem onIanHandshake_accepted (c : Connection) (chunk : List UInt8) :
    (c.onIanHandshake (.ok chunk)).accepted = c.accepted := by
  unfold onIanHandshake
  dsimp only
  split
  · split
    · exact shutdown_accepted _
    split
    · exact shutdown_accepted _
    · exact handshakeBody_accepted _
  · exact handshakeBody_accepted _

theorem onRead_accepted (c : Connection) (chunk : List UInt8) :
    (c.onRead (.ok chunk)).accepted = c.accepted := by
  obtain ⟨payloads, len, rest, hend | hend⟩ := onRead_cases c chunk
  · rw [hend]
    rfl
  · rw [hend]
    exact shutdown_accepted _

/-! ## Progress of the link -/

variable {greeting : Side → Payload} {l l' : Link}

theorem frames_append (ps qs : List (List UInt8)) : frames (ps ++ qs) = frames ps ++ frames qs := by
  simp only [frames, List.map_append, List.flatten_append]

theorem wire_le_total (h : Sending g c) :
    c.wire.length ≤ (frame g).length + (frames (c.accepted.map Message.bytes)).length := by
  cases h.phase with
  | connecting ops done wire completed =>
    rw [wire]
    exact Nat.zero_le _
  | greeting data ops done wire completed =>
    rw [wire]
    exact Nat.le_add_right _ _
  | listening ops done wire completed =>
    rw [wire]
    exact Nat.le_add_right _ _
  | talking ops done wire =>
    have horder : c.accepted = c.written ++ c.messageQueue.pending := h.ordered.order
    rw [wire, horder, List.map_append, frames_append, List.length_append, List.length_append]
    omega

/-- A side that has less to do, and has taken nothing. -/
theorem left_set {s : Side} {r : Nat} (haccepted : c.accepted = (l.conn s).accepted)
    (hless : c.work + (l.total greeting s.other - r) < l.leftAt greeting s) :
    (∀ t, ((l.set s c r).conn t).accepted = (l.conn t).accepted) ∧
      (l.set s c r).left greeting < l.left greeting := by
  have hconn : (l.set s c r).conn s = c := Function.update_self ..
  have hread : (l.set s c r).read s = r := Function.update_self ..
  have hconn' : (l.set s c r).conn s.other = l.conn s.other :=
    Function.update_of_ne (other_ne s) ..
  have hread' : (l.set s c r).read s.other = l.read s.other :=
    Function.update_of_ne (other_ne s) ..
  have hsame : ∀ t, ((l.set s c r).conn t).accepted = (l.conn t).accepted := by
    intro t
    rcases eq_or_other s t with rfl | rfl
    · rw [hconn, haccepted]
    · rw [hconn']
  have htotal : ∀ t, (l.set s c r).total greeting t = l.total greeting t := by
    intro t
    unfold Link.total
    rw [hsame]
  have hself : (l.set s c r).leftAt greeting s < l.leftAt greeting s := by
    unfold Link.leftAt
    rw [htotal, hconn, hread]
    exact hless
  have hother : (l.set s c r).leftAt greeting s.other = l.leftAt greeting s.other := by
    unfold Link.leftAt
    rw [htotal, hconn', hread']
  refine ⟨hsame, ?_⟩
  cases s with
  | left => exact Nat.add_lt_add_of_lt_of_le hself (Nat.le_of_eq hother)
  | right => exact Nat.add_lt_add_of_le_of_lt (Nat.le_of_eq hother) hself

/-- A step that reads nothing. -/
theorem turn_lowers {s : Side} {e : Connection.Event}
    (hwork : ∀ c, (l.conn s).step (.fromVector (greeting s).1) e = some c →
      c.accepted = (l.conn s).accepted ∧ c.work < (l.conn s).work)
    (hturn : l.turn greeting s e (l.read s) = some l') :
    (∀ t, (l'.conn t).accepted = (l.conn t).accepted) ∧ l'.left greeting < l.left greeting := by
  obtain ⟨c, hstep, rfl⟩ := Option.map_eq_some_iff.mp hturn
  obtain ⟨haccepted, hless⟩ := hwork c hstep
  exact left_set haccepted (Nat.add_lt_add_right hless _)

/-- A step that reads the next bytes. -/
theorem readTurn_lowers (h : l.Agreed greeting) {s : Side} {n : Nat}
    {e : List UInt8 → Connection.Event}
    (hwork : ∀ chunk c, (l.conn s).step (.fromVector (greeting s).1) (e chunk) = some c →
      c.accepted = (l.conn s).accepted ∧ c.work ≤ (l.conn s).work)
    (hturn : l.readTurn greeting s n e = some l') :
    (∀ t, (l'.conn t).accepted = (l.conn t).accepted) ∧ l'.left greeting < l.left greeting := by
  unfold Link.readTurn at hturn
  split at hturn
  · next hn =>
    obtain ⟨c, hstep, rfl⟩ := Option.map_eq_some_iff.mp hturn
    obtain ⟨haccepted, hle⟩ := hwork _ c hstep
    have hlen : (l.incoming s).length = (l.conn s.other).wire.length - l.read s :=
      List.length_drop
    have hwire := wire_le_total (h.sending s.other)
    have htotal : l.total greeting s.other = (frame (greeting s.other).1).length +
        (frames ((l.conn s.other).accepted.map Message.bytes)).length := rfl
    refine left_set haccepted ?_
    unfold Link.leftAt
    omega
  · cases hturn

theorem step_lowers (h : l.Agreed greeting) {e : Link.Event} (hC : l.Settling greeting e)
    (hstep : l.step greeting e = some l') :
    (∀ t, (l'.conn t).accepted = (l.conn t).accepted) ∧ l'.left greeting < l.left greeting := by
  cases e with
  | send s p => cases hC.2
  | sslHandshake s =>
    refine turn_lowers (fun c hc => ⟨?_, sslHandshake_work hc⟩) hstep
    rw [(handler_cases hc).2]
    rfl
  | handshakeSent s =>
    refine turn_lowers (fun c hc => ⟨?_, handshakeSent_work hc⟩) hstep
    rw [(handler_cases hc).2]
    rfl
  | wrote s =>
    refine turn_lowers (fun c hc => ⟨?_, wrote_work (h.sending s).ordered.queue hc⟩) hstep
    rw [(handler_cases hc).2]
    exact (writeQueued_frame _).2.2
  | handshakeRead s n =>
    have hturn : l.readTurn greeting s n (fun chunk => .handshakeRead (.ok chunk)) = some l' :=
      hstep
    refine readTurn_lowers h (fun chunk c hc =>
      ⟨?_, handshakeRead_work (h.sending s).ordered.queue hc⟩) hturn
    rw [(handler_cases hc).2]
    exact onIanHandshake_accepted _ chunk
  | read s n =>
    have hturn : l.readTurn greeting s n (fun chunk => .read (.ok chunk)) = some l' := hstep
    refine readTurn_lowers h (fun chunk c hc => ⟨?_, read_work hc⟩) hturn
    rw [(handler_cases hc).2]
    exact onRead_accepted _ chunk

/-! ## Nobody waits for nothing -/

/-- Something can happen. -/
def GoesOn (greeting : Side → Payload) (l : Link) : Prop :=
  ∃ e l', l.Settling greeting e ∧ l.step greeting e = some l'

/-- The handler of an outstanding operation can run. -/
theorem handler_runs (hfault : c.fault = false) {p : AsyncOp → Bool}
    (hany : c.pending.any p = true) (handler : Connection → Connection) :
    (if c.fault then none else (c.complete p).map handler) = some (handler (c.without p)) := by
  rw [if_neg (by simp [hfault]), complete, if_pos hany]
  rfl

theorem any_of_handshakeOps {op : AsyncOp} (hops : c.handshakeOps = [op]) {p : AsyncOp → Bool}
    (hp : p op = true) : c.pending.any p = true := by
  have hmem : op ∈ c.handshakeOps := by rw [hops]; exact List.mem_singleton_self op
  exact List.any_eq_true.mpr ⟨op, List.mem_of_mem_filter hmem, hp⟩

theorem turn_runs (greeting : Side → Payload) (s : Side) (e : Connection.Event) {r : Nat}
    (hstep : (l.conn s).step (.fromVector (greeting s).1) e = some c) :
    ∃ l', l.turn greeting s e r = some l' :=
  ⟨l.set s c r, by rw [Link.turn, hstep]; rfl⟩

theorem readTurn_runs (greeting : Side → Payload) (s : Side) {n : Nat} (hpos : 0 < n)
    (hn : n ≤ (l.incoming s).length) (e : List UInt8 → Connection.Event)
    (hstep : ∀ chunk, ∃ c, (l.conn s).step (.fromVector (greeting s).1) (e chunk) = some c) :
    ∃ l', l.readTurn greeting s n e = some l' := by
  obtain ⟨c, hc⟩ := hstep ((l.incoming s).take n)
  rw [Link.readTurn, if_pos ⟨hpos, hn⟩]
  exact turn_runs greeting s _ hc

/-- A side that has not written its handshake is about to, and one that has
waits for the peer's or is done. -/
theorem goesOn_or_greeted (h : l.Agreed greeting) (s : Side) :
    GoesOn greeting l ∨ (frame (greeting s).1 <+: (l.conn s).wire ∧
      ((l.conn s).pending.any (· == .handshakeRead) = true ∨ (l.conn s).handshakeDone = true)) := by
  have hfault : (l.conn s).fault = false := (h.sending s).ordered.noFault
  cases (h.sending s).phase with
  | connecting ops done wire completed =>
    have hany : (l.conn s).pending.any (· == .sslHandshake) = true := any_of_handshakeOps ops rfl
    obtain ⟨l', hl'⟩ := turn_runs greeting s (.sslHandshake (.ok ()))
      (handler_runs hfault hany (·.onSslHandshake (.fromVector (greeting s).1) (.ok ())))
    exact Or.inl ⟨.sslHandshake s, l', ⟨trivial, rfl⟩, hl'⟩
  | greeting data ops done wire completed =>
    have hany : (l.conn s).pending.any AsyncOp.isHandshakeWrite = true :=
      any_of_handshakeOps ops rfl
    obtain ⟨l', hl'⟩ := turn_runs greeting s (.handshakeSent (.ok ()))
      (handler_runs hfault hany (·.onIanHandshakeSent (.ok ())))
    exact Or.inl ⟨.handshakeSent s, l', ⟨trivial, rfl⟩, hl'⟩
  | listening ops done wire completed =>
    exact Or.inr ⟨⟨[], by rw [wire, List.append_nil]⟩, Or.inl (any_of_handshakeOps ops rfl)⟩
  | talking ops done wire => exact Or.inr ⟨⟨_, wire.symm⟩, Or.inr done⟩

/-- A read of the handshake, of what is left of the peer's. -/
theorem handshakeRead_goesOn (h : l.Agreed greeting) {s : Side}
    (hany : (l.conn s).pending.any (· == .handshakeRead) = true)
    (hpeer : frame (greeting s.other).1 <+: (l.conn s.other).wire) : GoesOn greeting l := by
  have hfault : (l.conn s).fault = false := (h.sending s).ordered.noFault
  have hdone := (handshakeRead_listening (h.sending s) hany).2.1
  have hlen : (l.incoming s).length = (l.conn s.other).wire.length - l.read s := List.length_drop
  have hframe : (frame (greeting s.other).1).length = 4 + (greeting s.other).1.length := by
    rw [frame, List.length_append, length_le32]
  have hwire : 4 + (greeting s.other).1.length ≤ (l.conn s.other).wire.length := by
    rw [← hframe]
    exact hpeer.length_le
  -- It is enough that some of the handshake is left, and the header if it is all.
  have hreads : ∀ n, 0 < n → l.read s + n = 4 + (greeting s.other).1.length →
      ((l.conn s).inMessageLen = 0 → 4 ≤ n) → GoesOn greeting l := by
    intro n hpos hn hfirst
    obtain ⟨l', hl'⟩ := readTurn_runs greeting s hpos (by omega)
      (fun chunk => .handshakeRead (.ok chunk))
      fun chunk => ⟨_, handler_runs hfault hany (·.onIanHandshake (.ok chunk))⟩
    exact ⟨.handshakeRead s n, l', ⟨⟨hfirst, Nat.le_of_eq hn⟩, rfl⟩, hl'⟩
  have hrecv := h.receiving s
  have hread : l.read s = ((l.conn s.other).wire.take (l.read s)).length :=
    (List.length_take_of_le (h.bound s)).symm
  have hpos := (greeting s.other).2.1
  generalize (l.conn s.other).wire.take (l.read s) = got at hrecv hread
  generalize hinb : (l.conn s).inbound = inb at hrecv
  cases hrecv with
  | silent =>
    rw [List.length_nil] at hread
    exact hreads (4 + (greeting s.other).1.length) (by omega) (by omega) (fun _ => by omega)
  | greeting buffer short =>
    injection hinb with _ hlen _ _ _
    rw [List.length_append, length_le32] at hread
    refine hreads ((greeting s.other).1.length - buffer.length) (by omega) (by omega)
      fun hzero => ?_
    omega
  | talking rest payloads len buffer layer hdecode =>
    injection hinb with hdone'
    cases hdone.symm.trans hdone'

/-- A side whose handshake is done goes on until it has written and read all. -/
theorem goesOn_or_idle (h : l.Agreed greeting) {s : Side}
    (hdone : (l.conn s).handshakeDone = true) :
    GoesOn greeting l ∨ ((l.conn s).isWriting = false ∧ l.incoming s = []) := by
  have hfault : (l.conn s).fault = false := (h.sending s).ordered.noFault
  cases hwriting : (l.conn s).isWriting with
  | true =>
    have hwrites : (l.conn s).pending.countP AsyncOp.isMessageWrite = 1 :=
      (h.sending s).ordered.busy hwriting hdone
    have hany : (l.conn s).pending.any AsyncOp.isMessageWrite = true := by
      rw [List.any_eq_true]
      exact List.countP_pos_iff.mp (by omega)
    obtain ⟨l', hl'⟩ := turn_runs greeting s (.wrote (.ok ()))
      (handler_runs hfault hany (·.onWriteMessage (.ok ())))
    exact Or.inl ⟨.wrote s, l', ⟨trivial, rfl⟩, hl'⟩
  | false =>
    rcases Nat.eq_zero_or_pos (l.incoming s).length with hnone | hpos
    · exact Or.inr ⟨rfl, List.length_eq_zero_iff.mp hnone⟩
    have hrecv := h.receiving s
    have hany : (l.conn s).pending.any AsyncOp.isRead = true := by
      have hreads : (l.conn s).pending.filter AsyncOp.isRead = (l.conn s).inbound.reads := rfl
      have hinbound : (l.conn s).inbound.done = true := hdone
      generalize (l.conn s.other).wire.take (l.read s) = got at hrecv
      generalize (l.conn s).inbound = inb at hrecv hreads hinbound
      cases hrecv with
      | silent => cases hinbound
      | greeting buffer short => cases hinbound
      | talking rest payloads len buffer layer hdecode =>
        have hmem : AsyncOp.read layer ∈ (l.conn s).pending.filter AsyncOp.isRead := by
          rw [hreads]
          exact List.mem_singleton_self _
        exact List.any_eq_true.mpr ⟨_, List.mem_of_mem_filter hmem, rfl⟩
    obtain ⟨l', hl'⟩ := readTurn_runs greeting s hpos (Nat.le_refl _)
      (fun chunk => .read (.ok chunk))
      fun chunk => ⟨_, handler_runs hfault hany (·.onRead (.ok chunk))⟩
    exact Or.inl ⟨.read s _, l', ⟨trivial, rfl⟩, hl'⟩

/-- A side that has read all of what a peer has written that is done has
delivered all of what that peer has taken. -/
theorem delivered_all (h : l.Agreed greeting) {s : Side} (hdone : (l.conn s).handshakeDone = true)
    (hpeer : (l.conn s.other).handshakeDone = true) (hidle : (l.conn s.other).isWriting = false)
    (hread : l.incoming s = []) : (l.conn s).delivered = (l.conn s.other).accepted := by
  have hrecv := h.receiving s
  rw [List.take_of_length_le (List.drop_eq_nil_iff.mp hread)] at hrecv
  have hsending := h.sending s.other
  obtain ⟨_, hwire⟩ := talking_of_done hsending.phase hpeer
  have haccepted : (l.conn s.other).accepted = (l.conn s.other).written := by
    have horder : (l.conn s.other).accepted =
        (l.conn s.other).written ++ (l.conn s.other).messageQueue.pending := hsending.ordered.order
    have hqueue : (l.conn s.other).messageQueue.queue = [] := (hsending.ordered.idle hidle).1
    rw [horder, MessageQueue.pending, hqueue, List.reverse_nil, List.append_nil]
  rw [hwire, ← haccepted] at hrecv
  have hframable := hsending.framable
  have hdelivered : (l.conn s).delivered = (l.conn s).inbound.delivered := rfl
  have hinbound : (l.conn s).inbound.done = true := hdone
  rw [hdelivered]
  generalize hgot : frame (greeting s.other).1 ++ frames _ = got at hrecv
  generalize (l.conn s).inbound = inb at hrecv hinbound
  cases hrecv with
  | silent => cases hinbound
  | greeting buffer short => cases hinbound
  | talking rest payloads len buffer layer hdecode =>
    rw [← List.append_cancel_left hgot,
      decode_frames (framable_of_begins (List.prefix_refl _) hframable)] at hdecode
    injection hdecode with hpayloads _
    rw [← hpayloads]
    exact map_fromVector_bytes hframable

/-- All of what each side has taken is delivered by the other. -/
def Delivered (l : Link) : Prop := ∀ s, (l.conn s).delivered = (l.conn s.other).accepted

theorem goesOn_of_undelivered (h : l.Agreed greeting) (hnot : ¬Delivered l) :
    GoesOn greeting l := by
  by_contra hstuck
  have hdone : ∀ s, (l.conn s).handshakeDone = true := by
    intro s
    obtain ⟨hpeer, _⟩ := (goesOn_or_greeted h s.other).resolve_left hstuck
    obtain ⟨_, hwaits | hdone⟩ := (goesOn_or_greeted h s).resolve_left hstuck
    · exact absurd (handshakeRead_goesOn h hwaits hpeer) hstuck
    · exact hdone
  have hidle := fun s => (goesOn_or_idle h (hdone s)).resolve_left hstuck
  exact hnot fun s => delivered_all h (hdone s) (hdone s.other) (hidle s.other).1 (hidle s).2

/-- The exchange winds down. -/
theorem windsDown (l₀ : Link) : WindsDown (Link.step greeting) (Link.Settling greeting)
    (fun l => l.Agreed greeting ∧ ∀ s, (l.conn s).accepted = (l₀.conn s).accepted)
    (fun l => ∀ s, (l.conn s).delivered = (l₀.conn s.other).accepted) (Link.left greeting) where
  keeps l e l' hI hC hstep := by
    obtain ⟨hagreed, htaken⟩ := hI
    refine ⟨step_agreed hagreed hC.1 hstep, fun s => ?_⟩
    rw [(step_lowers hagreed hC hstep).1 s, htaken]
  lowers l e l' hI hC hstep := (step_lowers hI.1 hC hstep).2
  goesOn l hI hnot := by
    obtain ⟨hagreed, htaken⟩ := hI
    refine goesOn_of_undelivered hagreed fun hall => hnot fun s => ?_
    rw [hall s, htaken]

end DeliveryLemmas

open DeliveryLemmas PeersLemmas

end Ian.Cluster
