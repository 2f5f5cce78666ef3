import Ian.Cluster.Layers
import Ian.Cluster.Peers

/-!
# Two peers when operations fail

The link of two peers again, with nothing taken for granted: any operation may
complete with any error, a read of the handshake may return anything, and
`send_message` may be given any message whose size fits the header. The link is
safe, so every byte goes through the SSL stream, which delivers bytes in order
up to the point where it breaks.

`failing_peers_in_order` is what is left of the exchange: each side has
delivered a prefix of what the other has taken, whatever has failed.
`idle_peers_lose_nothing` says when it is all of it.
-/

namespace Ian.Cluster

open Ian.Lib Ian.Common FramingLemmas DecodingLemmas

/-- The bytes a completed read returns. -/
def Connection.Event.chunk : Connection.Event → List UInt8
  | .handshakeRead (.ok chunk) => chunk
  | .read (.ok chunk) => chunk
  | _ => []

namespace Link

/-- A strand step of one side, with any outcome. A read that succeeds returns
the next bytes of what the peer has written. -/
def anyStep (greeting : Side → Payload) (l : Link) (e : Side × Connection.Event) : Option Link :=
  if e.2.chunk <+: l.incoming e.1 then
    l.turn greeting e.1 e.2 (l.read e.1 + e.2.chunk.length)
  else none

/-- The size of a message to send fits the header of a frame. -/
def SizeFits (_ : Link) (e : Side × Connection.Event) : Prop :=
  match e.2 with
  | .send m => m.bytes.length < 2 ^ 32
  | _ => True

instance (l : Link) (e : Side × Connection.Event) : Decidable (l.SizeFits e) :=
  match e with
  | (_, .send m) => inferInstanceAs (Decidable (m.bytes.length < 2 ^ 32))
  | (_, .sslHandshake _) | (_, .handshakeSent _) | (_, .handshakeRead _) | (_, .read _)
  | (_, .wrote _) | (_, .shutdownDone _) => isTrue trivial

end Link

/-! ## What a side has written -/

namespace Connection

/-- How far a side with the handshake `g` is, and the messages it has written or
is writing: as `Phase`, or its handshake has failed. -/
inductive Stage (g : List UInt8) (c : Connection) : List Message → Prop where
  | connecting (ops : c.handshakeOps = [.sslHandshake]) (done : c.handshakeDone = false)
    (wire : c.wire = []) : Stage g c []
  | greeting (data : List UInt8) (ops : c.handshakeOps = [.handshakeWrite data])
    (done : c.handshakeDone = false) (wire : c.wire = frame g) : Stage g c []
  | listening (ops : c.handshakeOps = [.handshakeRead]) (done : c.handshakeDone = false)
    (wire : c.wire = frame g) : Stage g c []
  | failed (ops : c.handshakeOps = []) (done : c.handshakeDone = false)
    (wire : c.wire <+: frame g) : Stage g c []
  | talking {sent : List Message} (ops : c.handshakeOps = []) (done : c.handshakeDone = true)
    (wire : c.wire = frame g ++ frames (sent.map Message.bytes)) : Stage g c sent

/-- A side that has written `sent`, whatever has failed: these are the first of
the messages taken, and all but the queued ones as long as it has not
terminated. -/
structure Writes (g : List UInt8) (c : Connection) (sent : List Message) : Prop where
  stage : Stage g c sent
  waits : c.handshakeDone = false →
    c.isWriting = true ∧ c.pending.countP AsyncOp.isMessageWrite = 0
  idle : c.isWriting = false → c.messageQueue.pending = []
  begins : sent <+: c.accepted
  order : c.terminated = false → c.accepted = sent ++ c.messageQueue.pending
  taken : ∀ m ∈ c.accepted, m.isEmpty = false ∧ m.bytes.length < 2 ^ 32

/-- What a handler leaves alone that ends the connection or does nothing. The
queue goes only with the connection. -/
structure Rests (c c' : Connection) : Prop where
  ops : c'.handshakeOps = c.handshakeOps
  done : c'.handshakeDone = c.handshakeDone
  wire : c'.wire = c.wire
  accepted : c'.accepted = c.accepted
  isWriting : c'.isWriting = c.isWriting
  writes : c'.pending.countP AsyncOp.isMessageWrite = c.pending.countP AsyncOp.isMessageWrite
  queue : c'.terminated = false →
    c.terminated = false ∧ c'.messageQueue = c.messageQueue

/-- The side has written at least what it had. -/
structure WritesOn (g : List UInt8) (c c' : Connection) : Prop where
  writes : ∃ sent, Writes g c' sent
  wire : c.wire <+: c'.wire

/-- A step that reads nothing. -/
structure Passes (g : List UInt8) (c c' : Connection) : Prop where
  on : WritesOn g c c'
  inbound : c'.inbound = c.inbound
  ops : c.handshakeOps = [] → c'.handshakeOps = []

end Connection

/-- What a side has made of the bytes it has read: as `Receiving`, or it reads
no more and has delivered what they decode to, or nothing if it has not come to
the end of the handshake. -/
inductive Heard (g got : List UInt8) (c : Connection) : Prop where
  | live (h : Receiving g got c.inbound)
  | deaf (ops : c.handshakeOps = []) (reads : c.reading = false)
    (delivered : c.delivered = [] ∨
      ∃ rest, got = frame g ++ rest ∧ c.delivered = (decode rest).1.map .fromVector)

namespace FailuresLemmas

open Connection Connection.WritingLemmas PeersLemmas

variable {c c' : Connection} {g g' got : List UInt8} {sent : List Message}

/-! ## Handlers that end the connection -/

theorem Rests.refl (c : Connection) : Rests c c :=
  ⟨rfl, rfl, rfl, rfl, rfl, rfl, fun h => ⟨h, rfl⟩⟩

theorem abort_rests (c : Connection) : Rests c c.abort := by
  unfold abort
  split
  · exact Rests.refl c
  · exact ⟨rfl, rfl, rfl, rfl, rfl, rfl, nofun⟩

theorem shutdown_rests (hopen : c.socketOpen = !c.dropped) : Rests c c.shutdown := by
  unfold shutdown
  dsimp only
  split
  · exact ⟨rfl, rfl, rfl, rfl, rfl, rfl, fun h => ⟨h, rfl⟩⟩
  next hflags =>
  have hdropped : c.dropped = false := by
    cases hd : c.dropped with
    | false => rfl
    | true => simp [hd] at hflags
  split
  · unfold abort
    rw [if_neg (by simp [hdropped])]
    exact ⟨rfl, rfl, rfl, rfl, rfl, rfl, nofun⟩
  · rw [if_neg (by simp [hopen, hdropped])]
    refine ⟨?_, rfl, ?_, rfl, rfl, ?_, ?_⟩
    · simp [start, handshakeOps, AsyncOp.isHandshakeWrite, AsyncOp.isHandshakeWait]
    · simp [start, wire, AsyncOp.data]
    · simp [start, List.countP_append, AsyncOp.isMessageWrite]
    · intro h
      simp [terminated] at h

theorem handleError_rests (hopen : c.socketOpen = !c.dropped) (ec : ErrorKind) :
    Rests c (c.handleError ec) := by
  unfold handleError
  split
  · exact Rests.refl c
  · cases ec with
    | reset => exact abort_rests c
    | canceled => exact Rests.refl c
    | other => exact shutdown_rests hopen

theorem readNext_rests (c : Connection) : Rests c c.readNext := by
  refine ⟨readNext_handshakeOps c, rfl, readNext_wire c, rfl, rfl, ?_, fun h => ⟨h, rfl⟩⟩
  simp [readNext, start, List.countP_append, AsyncOp.isMessageWrite]

theorem onShutdown_rests (c : Connection) (result : Except ErrorKind Unit) :
    Rests c (c.onShutdown result) := by
  unfold onShutdown
  split
  · exact Rests.refl c
  · exact ⟨rfl, rfl, rfl, rfl, rfl, rfl, nofun⟩

theorem handleWriteError_rests (hopen : c.socketOpen = !c.dropped) (ec : ErrorKind) :
    Rests c ((c.assignOutbound .empty).handleWriteError ec) := by
  obtain ⟨hops, hdone, hwire, haccepted, hwriting, hwrites, hqueue⟩ :=
    handleError_rests (c := { c.assignOutbound .empty with writeFailed := true }) hopen ec
  exact ⟨hops, hdone, hwire, haccepted, hwriting, hwrites, hqueue⟩

theorem abort_inbound (c : Connection) : c.abort.inbound = c.inbound := by
  unfold abort
  split <;> rfl

theorem shutdown_inbound (c : Connection) : c.shutdown.inbound = c.inbound := by
  unfold shutdown
  dsimp only
  split
  · rfl
  split
  · exact abort_inbound _
  split
  · rfl
  · simp [start, inbound, AsyncOp.isRead]

theorem handleError_inbound (c : Connection) (ec : ErrorKind) :
    (c.handleError ec).inbound = c.inbound := by
  unfold handleError
  split
  · rfl
  · cases ec with
    | reset => exact abort_inbound c
    | canceled => rfl
    | other => exact shutdown_inbound c

theorem onShutdown_inbound (c : Connection) (result : Except ErrorKind Unit) :
    (c.onShutdown result).inbound = c.inbound := by
  unfold onShutdown
  split <;> rfl

/-! ## The stage of the handshake -/

theorem stage_congr (h : Stage g c sent) (hops : c'.handshakeOps = c.handshakeOps)
    (hdone : c'.handshakeDone = c.handshakeDone) (hwire : c'.wire = c.wire) : Stage g c' sent := by
  cases h with
  | connecting ops done wire =>
    exact .connecting (hops.trans ops) (hdone.trans done) (hwire.trans wire)
  | greeting data ops done wire =>
    exact .greeting data (hops.trans ops) (hdone.trans done) (hwire.trans wire)
  | listening ops done wire =>
    exact .listening (hops.trans ops) (hdone.trans done) (hwire.trans wire)
  | failed ops done wire =>
    rw [← hwire] at wire
    exact .failed (hops.trans ops) (hdone.trans done) wire
  | talking ops done wire => exact .talking (hops.trans ops) (hdone.trans done) (hwire.trans wire)

/-- A side some of whose operations are gone is where it was, or its handshake
has failed. -/
theorem stage_without (h : Stage g c sent) (p : AsyncOp → Bool) : Stage g (c.without p) sent := by
  have hsub : (c.without p).handshakeOps.Sublist c.handshakeOps := List.eraseP_sublist.filter _
  have hops : ∀ op, c.handshakeOps = [op] →
      (c.without p).handshakeOps = [op] ∨ (c.without p).handshakeOps = [] := by
    intro op hop
    rw [hop] at hsub
    rcases List.sublist_singleton.mp hsub with hnil | hone
    · exact Or.inr hnil
    · exact Or.inl hone
  cases h with
  | connecting ops done wire =>
    rcases hops _ ops with hone | hnil
    · exact .connecting hone done wire
    · refine .failed hnil done ?_
      show c.wire <+: frame g
      rw [wire]
      exact List.nil_prefix
  | greeting data ops done wire =>
    rcases hops _ ops with hone | hnil
    · exact .greeting data hone done wire
    · exact .failed hnil done ⟨[], by rw [List.append_nil]; exact wire⟩
  | listening ops done wire =>
    rcases hops _ ops with hone | hnil
    · exact .listening hone done wire
    · exact .failed hnil done ⟨[], by rw [List.append_nil]; exact wire⟩
  | failed ops done wire =>
    rw [ops] at hsub
    exact .failed (List.sublist_nil.mp hsub) done wire
  | talking ops done wire =>
    rw [ops] at hsub
    exact .talking (List.sublist_nil.mp hsub) done wire

/-! ## Writing -/

theorem pending_of_terminated (h : Linked c) (hterminated : c.terminated = true) :
    c.messageQueue.pending = [] := by
  have hqueue : c.messageQueue = .init := h.once.drained hterminated
  rw [hqueue]
  rfl

theorem handshakeOps_without_nil (hops : c.handshakeOps = []) (p : AsyncOp → Bool) :
    (c.without p).handshakeOps = [] := by
  have hsub : (c.without p).handshakeOps.Sublist c.handshakeOps := List.eraseP_sublist.filter _
  rw [hops] at hsub
  exact List.sublist_nil.mp hsub

theorem writes_without (h : Writes g c sent) (p : AsyncOp → Bool) :
    Writes g (c.without p) sent := by
  refine ⟨stage_without h.stage p, fun hd => ?_, h.idle, h.begins, h.order, h.taken⟩
  obtain ⟨hwriting, hnone⟩ := h.waits hd
  refine ⟨hwriting, Nat.le_zero.mp ?_⟩
  rw [← hnone]
  exact List.eraseP_sublist.countP_le

/-- A handler that ends the connection or does nothing. -/
theorem writes_rests (h : Writes g c sent) (hrests : Rests c c') (hlinked : Linked c') :
    Writes g c' sent := by
  refine ⟨stage_congr h.stage hrests.ops hrests.done hrests.wire, ?_, ?_, ?_, ?_, ?_⟩
  · rw [hrests.done, hrests.isWriting, hrests.writes]
    exact h.waits
  · intro hidle
    cases hterminated : c'.terminated with
    | true => exact pending_of_terminated hlinked hterminated
    | false =>
      rw [(hrests.queue hterminated).2]
      exact h.idle (hrests.isWriting.symm.trans hidle)
  · rw [hrests.accepted]
    exact h.begins
  · intro hrunning
    obtain ⟨hrun, hqueue⟩ := hrests.queue hrunning
    rw [hrests.accepted, hqueue]
    exact h.order hrun
  · rw [hrests.accepted]
    exact h.taken

theorem rests_on (h : Writes g c sent) (hrests : Rests c c') (hlinked : Linked c') :
    WritesOn g c c' :=
  ⟨⟨sent, writes_rests h hrests hlinked⟩, ⟨[], by rw [List.append_nil]; exact hrests.wire.symm⟩⟩

theorem rests_passes (h : Writes g c sent) {p : AsyncOp → Bool}
    (hp : ∀ op, p op = true → op.isRead = false) (hrests : Rests (c.without p) c')
    (hinbound : c'.inbound = (c.without p).inbound) (hlinked : Linked c') : Passes g c c' := by
  obtain ⟨hwrites, hwire⟩ := rests_on (writes_without h p) hrests hlinked
  exact ⟨⟨hwrites, hwire⟩, hinbound.trans (without_inbound hp),
    fun hops => hrests.ops.trans (handshakeOps_without_nil hops p)⟩

/-- The next message is written, when no write is outstanding. -/
theorem doWriteMessage_writes (hops : c.handshakeOps = []) (hdone : c.handshakeDone = true)
    (hwire : c.wire = frame g ++ frames (sent.map Message.bytes)) (hwriting : c.isWriting = true)
    {p : List UInt8} (haccepted : c.accepted = sent ++ .fromVector p :: c.messageQueue.pending)
    (htaken : ∀ m ∈ c.accepted, m.isEmpty = false ∧ m.bytes.length < 2 ^ 32) :
    Writes g (c.doWriteMessage (.fromVector p)) (sent ++ [.fromVector p]) where
  stage := by
    refine .talking ((doWriteMessage_handshakeOps c p).trans hops) hdone ?_
    rw [doWriteMessage_wire, hwire]
    simp [frames]
  waits hd := by cases hdone.symm.trans hd
  idle hidle := by cases hwriting.symm.trans hidle
  begins := by
    show sent ++ [.fromVector p] <+: c.accepted
    rw [haccepted]
    exact ⟨c.messageQueue.pending, by rw [List.append_assoc]; rfl⟩
  order _ := by
    show c.accepted = sent ++ [.fromVector p] ++ c.messageQueue.pending
    rw [haccepted, List.append_assoc]
    rfl
  taken := htaken

theorem talking_wire (h : Stage g c sent) (hdone : c.handshakeDone = true) :
    c.handshakeOps = [] ∧ c.wire = frame g ++ frames (sent.map Message.bytes) := by
  cases h with
  | connecting ops done wire => cases done.symm.trans hdone
  | greeting data ops done wire => cases done.symm.trans hdone
  | listening ops done wire => cases done.symm.trans hdone
  | failed ops done wire => cases done.symm.trans hdone
  | talking ops done wire => exact ⟨ops, wire⟩

theorem writeQueued_writes (h : Writes g c sent) (hdone : c.handshakeDone = true)
    (hvalid : c.messageQueue.Valid) (hdrained : c.terminated = true → c.messageQueue = .init) :
    ∃ sent', Writes g c.writeQueued sent' := by
  obtain ⟨hops, hwire⟩ := talking_wire h.stage hdone
  unfold writeQueued
  rcases MessageQueue.tryPop_spec hvalid with ⟨hpop, hempty⟩ | ⟨m, q, hpop, hm, _, hpending⟩
  · rw [hpop]
    exact ⟨sent, stage_congr h.stage rfl rfl rfl, fun hd => (nomatch hdone.symm.trans hd),
      fun _ => hempty, h.begins, h.order, h.taken⟩
  · have hrunning : c.terminated = false := by
      cases hterminated : c.terminated with
      | false => rfl
      | true =>
        rw [hdrained hterminated] at hpop
        cases hpop
    have hwriting : c.isWriting = true := by
      cases hw : c.isWriting with
      | true => rfl
      | false =>
        rw [h.idle hw] at hpending
        cases hpending
    have haccepted := h.order hrunning
    rw [hpending, Message.eq_fromVector hm] at haccepted
    rw [hpop, Message.eq_fromVector hm]
    exact ⟨_, doWriteMessage_writes (c := { c with messageQueue := q }) hops hdone hwire hwriting
      haccepted h.taken⟩

/-! ## Steps that read nothing -/

theorem Passes.refl (h : Writes g c sent) : Passes g c c :=
  ⟨⟨⟨sent, h⟩, List.prefix_refl c.wire⟩, rfl, id⟩

theorem send_passes (h : Writes g c sent) (hlinked : Linked c) {m : Message}
    (hsize : m.bytes.length < 2 ^ 32) : Passes g c (c.sendMessage m) := by
  unfold sendMessage sendMessageBody
  split
  · exact Passes.refl h
  next hempty =>
  have hm : m.isEmpty = false := by simpa using hempty
  split
  · exact Passes.refl h
  next hflags =>
  have hrunning : c.terminated = false := Bool.eq_false_iff.mpr hflags
  have htaken : ∀ m' ∈ c.accepted ++ [m], m'.isEmpty = false ∧ m'.bytes.length < 2 ^ 32 := by
    intro m' hm'
    rcases List.mem_append.mp hm' with hold | hnew
    · exact h.taken m' hold
    · rw [List.mem_singleton.mp hnew]
      exact ⟨hm, hsize⟩
  dsimp only
  split
  · next hidle =>
    have hwriting : c.isWriting = false := by simpa using hidle
    have hdone : c.handshakeDone = true := by
      cases hd : c.handshakeDone with
      | true => rfl
      | false => cases hwriting.symm.trans (h.waits hd).1
    obtain ⟨hops, hwire⟩ := talking_wire h.stage hdone
    have haccepted := h.order hrunning
    rw [h.idle hwriting, List.append_nil] at haccepted
    rw [Message.eq_fromVector hm] at htaken ⊢
    have hwrites := doWriteMessage_writes (c := { c with
        accepted := c.accepted ++ [.fromVector m.bytes], isWriting := true }) (p := m.bytes)
      hops hdone hwire rfl (by rw [haccepted, h.idle hwriting]) htaken
    exact ⟨⟨⟨_, hwrites⟩, ⟨_, (doWriteMessage_wire _ m.bytes).symm⟩⟩, doWriteMessage_inbound _ _,
      fun _ => (talking_wire hwrites.stage hdone).1⟩
  · next hbusy =>
    have hwriting : c.isWriting = true := by simpa using hbusy
    have hvalid : c.messageQueue.Valid := hlinked.once.valid
    obtain ⟨q, hpush, _, hpending⟩ := MessageQueue.push_spec hvalid hm
    rw [hpush]
    refine ⟨⟨⟨sent, stage_congr h.stage rfl rfl rfl, h.waits, ?_, ?_, ?_, htaken⟩,
      List.prefix_refl c.wire⟩, rfl, id⟩
    · intro hidle
      cases hwriting.symm.trans hidle
    · exact h.begins.trans (List.prefix_append _ _)
    · intro _
      show c.accepted ++ [m] = sent ++ q.pending
      rw [hpending, h.order hrunning, List.append_assoc]

/-- The operation of the handshake that completes tells how far the side is. -/
theorem stage_any (h : Stage g c sent) {p : AsyncOp → Bool} (hany : c.handshakeOps.any p = true) :
    sent = [] ∧ c.handshakeDone = false ∧ c.handshakeOps.eraseP p = [] ∧
      ((p .sslHandshake = true ∧ c.wire = []) ∨
        (((∃ data, p (.handshakeWrite data) = true) ∨ p .handshakeRead = true) ∧
          c.wire = frame g)) := by
  cases h with
  | connecting ops done wire =>
    rw [ops] at hany ⊢
    have hp : p .sslHandshake = true := by simpa using hany
    exact ⟨rfl, done, List.eraseP_cons_of_pos hp, Or.inl ⟨hp, wire⟩⟩
  | greeting data ops done wire =>
    rw [ops] at hany ⊢
    have hp : p (.handshakeWrite data) = true := by simpa using hany
    exact ⟨rfl, done, List.eraseP_cons_of_pos hp, Or.inr ⟨Or.inl ⟨data, hp⟩, wire⟩⟩
  | listening ops done wire =>
    rw [ops] at hany ⊢
    have hp : p .handshakeRead = true := by simpa using hany
    exact ⟨rfl, done, List.eraseP_cons_of_pos hp, Or.inr ⟨Or.inr hp, wire⟩⟩
  | failed ops done wire =>
    rw [ops] at hany
    cases hany
  | talking ops done wire =>
    rw [ops] at hany
    cases hany

/-- The handshake goes on with its next operation. -/
theorem start_on (h : Writes g c sent) {p : AsyncOp → Bool}
    (hp : ∀ op, p op = true → (op.isHandshakeWrite || op.isHandshakeWait) = true)
    (hany : c.pending.any p = true) {outbound : Message} {lenLe buffer : List UInt8}
    {overwritten : Bool} {len : Nat} {c1 : Connection} (hc1 : c1 = { c.without p with
      messageOutbound := outbound
      outMessageLenLe := lenLe
      inMessageLen := len
      readBuffer := buffer
      overwritten }) (op : AsyncOp) (hop : (op.isHandshakeWrite || op.isHandshakeWait) = true)
    (hstage : ∀ c', c'.handshakeOps = [op] → c'.handshakeDone = false →
      c'.wire = c.wire ++ op.data → Stage g c' sent) : WritesOn g c (c1.start op) := by
  obtain ⟨_, hdone, hops, _⟩ := stage_any h.stage (handshakeOps_any hp hany)
  have hwrite : op.isMessageWrite = false := by cases op <;> first | rfl | cases hop
  have hwire : (c1.start op).wire = c.wire ++ op.data := by
    rw [hc1]
    simp [start, wire, without]
  have hafter : (c1.start op).handshakeOps = [op] := by
    have hwithout := handshakeOps_without hp (c := c)
    rw [hops] at hwithout
    have hlast : [op].filter (fun op => op.isHandshakeWrite || op.isHandshakeWait) = [op] :=
      List.filter_eq_self.mpr fun op' hop' => by rw [List.mem_singleton.mp hop']; exact hop
    rw [hc1]
    show ((c.without p).pending ++ [op]).filter _ = [op]
    rw [List.filter_append, hlast]
    exact congrArg (· ++ [op]) hwithout
  have hnone : (c1.start op).pending.countP AsyncOp.isMessageWrite = 0 := by
    have hold := ((writes_without h p).waits hdone).2
    rw [hc1]
    show ((c.without p).pending ++ [op]).countP _ = 0
    rw [List.countP_append, hold, List.countP_singleton, hwrite]
    rfl
  subst hc1
  exact ⟨⟨sent, hstage _ hafter hdone hwire, fun _ => ⟨(h.waits hdone).1, hnone⟩, h.idle, h.begins,
    h.order, h.taken⟩, ⟨_, hwire.symm⟩⟩

theorem start_inbound (c : Connection) {op : AsyncOp} (hop : op.isRead = false) :
    (c.start op).inbound = c.inbound := by
  simp [start, inbound, hop]

theorem sslHandshake_passes (h : Writes g c sent) (hany : c.pending.any (· == .sslHandshake) = true)
    (result : Except ErrorKind Unit)
    (hlinked' : Linked ((c.without (· == .sslHandshake)).onSslHandshake (.fromVector g) result)) :
    Passes g c ((c.without (· == .sslHandshake)).onSslHandshake (.fromVector g) result) := by
  have hreads : ∀ op : AsyncOp, (op == .sslHandshake) = true → op.isRead = false :=
    fun op hop => by rw [eq_of_beq hop]; rfl
  cases result with
  | error ec => exact rests_passes h hreads (abort_rests _) (abort_inbound _) hlinked'
  | ok u =>
    have hmem := handshakeOps_any isSslHandshake_handshake hany
    refine ⟨start_on h isSslHandshake_handshake hany rfl (.handshakeWrite (frame g)) rfl ?_,
      (start_inbound _ rfl).trans (without_inbound (c := c) hreads), fun hnil => ?_⟩
    · intro c' hops hdone hwire
      obtain ⟨hsent, _, _, hstage⟩ := stage_any h.stage hmem
      rcases hstage with ⟨_, hempty⟩ | ⟨⟨data, hdata⟩ | hread, _⟩
      · rw [hempty] at hwire
        rw [hsent]
        exact .greeting _ hops hdone hwire
      · simp at hdata
      · simp at hread
    · rw [hnil] at hmem
      cases hmem

theorem handshakeSent_passes (h : Writes g c sent) (hlinked : Linked c)
    (hany : c.pending.any AsyncOp.isHandshakeWrite = true) (result : Except ErrorKind Unit)
    (hlinked' : Linked ((c.without AsyncOp.isHandshakeWrite).onIanHandshakeSent result)) :
    Passes g c ((c.without AsyncOp.isHandshakeWrite).onIanHandshakeSent result) := by
  have hreads : ∀ op : AsyncOp, op.isHandshakeWrite = true → op.isRead = false :=
    fun op hop => by cases op <;> first | rfl | cases hop
  cases result with
  | error ec =>
    exact rests_passes h hreads
      (handleWriteError_rests (c := c.without AsyncOp.isHandshakeWrite) hlinked.once.socket ec)
      (handleError_inbound _ ec) hlinked'
  | ok u =>
    have hmem := handshakeOps_any isHandshakeWrite_handshake hany
    refine ⟨start_on h isHandshakeWrite_handshake hany rfl .handshakeRead rfl ?_,
      (start_inbound _ rfl).trans (without_inbound (c := c) hreads), fun hnil => ?_⟩
    · intro c' hops hdone hwire
      obtain ⟨hsent, _, _, hstage⟩ := stage_any h.stage hmem
      rcases hstage with ⟨hconnecting, _⟩ | ⟨_, hgreeted⟩
      · cases hconnecting
      · rw [hgreeted] at hwire
        rw [hsent]
        exact .listening hops hdone (hwire.trans (List.append_nil _))
    · rw [hnil] at hmem
      cases hmem

theorem wrote_passes (h : Writes g c sent) (hlinked : Linked c)
    (hany : c.pending.any AsyncOp.isMessageWrite = true) (result : Except ErrorKind Unit)
    (hlinked' : Linked ((c.without AsyncOp.isMessageWrite).onWriteMessage result)) :
    Passes g c ((c.without AsyncOp.isMessageWrite).onWriteMessage result) := by
  have hreads : ∀ op : AsyncOp, op.isMessageWrite = true → op.isRead = false :=
    fun op hop => by cases op <;> first | rfl | cases hop
  cases result with
  | error ec =>
    exact rests_passes h hreads
      (handleWriteError_rests (c := c.without AsyncOp.isMessageWrite) hlinked.once.socket ec)
      (handleError_inbound _ ec) hlinked'
  | ok u =>
    have hdone : c.handshakeDone = true := by
      cases hd : c.handshakeDone with
      | true => rfl
      | false =>
        have hwrites := countP_pos_of_any (q := AsyncOp.isMessageWrite) (fun _ hop => hop) hany
        exact absurd (h.waits hd).2 (Nat.ne_of_gt hwrites)
    obtain ⟨c1, hc1⟩ : ∃ c1, c1 = { (c.without AsyncOp.isMessageWrite).assignOutbound .empty with
        completed := c.completed ++ [c.messageOutbound] } := ⟨_, rfl⟩
    have hresult : (c.without AsyncOp.isMessageWrite).onWriteMessage (.ok u) = c1.writeQueued := by
      rw [hc1]
      rfl
    have hwrites1 : Writes g c1 sent := by
      have hwithout := writes_without h AsyncOp.isMessageWrite
      rw [hc1]
      exact ⟨stage_congr hwithout.stage rfl rfl rfl, hwithout.waits, h.idle, h.begins, h.order,
        h.taken⟩
    have hvalid1 : c1.messageQueue.Valid := by
      rw [hc1]
      exact hlinked.once.valid
    have hwire1 : c1.wire = c.wire := by
      rw [hc1]
      rfl
    obtain ⟨sent', hwrites'⟩ := writeQueued_writes hwrites1 (by rw [hc1]; exact hdone) hvalid1
      (by rw [hc1]; exact hlinked.once.drained)
    have hinbound : c1.writeQueued.inbound = c.inbound := by
      rw [writeQueued_inbound hvalid1, ← without_inbound (c := c) hreads, hc1]
      rfl
    have hdone' : c1.writeQueued.handshakeDone = c.handshakeDone := congrArg Inbound.done hinbound
    rw [hresult]
    exact ⟨⟨⟨sent', hwrites'⟩, hwire1 ▸ writeQueued_wire hvalid1⟩, hinbound,
      fun _ => (talking_wire hwrites'.stage (hdone'.trans hdone)).1⟩

/-! ## Steps that read -/

variable {more chunk : List UInt8}

theorem reading_of_inbound (hinbound : c'.inbound = c.inbound) : c'.reading = c.reading := by
  have hreads : c'.pending.filter AsyncOp.isRead = c.pending.filter AsyncOp.isRead :=
    congrArg Inbound.reads hinbound
  rw [reading_eq, reading_eq, hreads]

/-- What a step that reads nothing leaves of what has been heard. -/
theorem passes_heard (hpasses : Passes g c c') (h : Heard g' got c) : Heard g' got c' := by
  cases h with
  | live hrecv => exact .live (by rw [hpasses.inbound]; exact hrecv)
  | deaf ops reads delivered =>
    have hdelivered : c'.delivered = c.delivered := congrArg Inbound.delivered hpasses.inbound
    rw [← hdelivered] at delivered
    exact .deaf (hpasses.ops ops) ((reading_of_inbound hpasses.inbound).trans reads) delivered

/-- The chunks that begin the peer's stream give the length of its handshake. -/
theorem header_begins (hg : Framable g') (hchunk : chunk <+: frame g' ++ more)
    (h4 : 4 ≤ chunk.length) :
    readLe32 chunk = g'.length ∧ le32 g'.length ++ chunk.drop 4 = chunk ∧
      chunk.drop 4 <+: g' ++ more := by
  obtain ⟨rest, hrest⟩ := hchunk
  have hread : readLe32 chunk = g'.length := by
    rw [← readLe32_append h4 rest, hrest, frame, List.append_assoc, readLe32_le32,
      Nat.mod_eq_of_lt hg.2]
  have hsplit : le32 g'.length ++ chunk.drop 4 = chunk := by
    rw [← hread]
    exact le32_readLe32 h4
  refine ⟨hread, hsplit, ⟨rest, ?_⟩⟩
  rw [← hsplit, frame, List.append_assoc, List.append_assoc] at hrest
  exact List.append_cancel_left hrest

/-- What a side has read is no matter to what it writes. -/
theorem writes_read (h : Writes g c sent) (delivered : List Message) (len : Nat)
    (buffer : List UInt8) :
    Writes g { c with delivered, inMessageLen := len, readBuffer := buffer } sent :=
  ⟨stage_congr h.stage rfl rfl rfl, h.waits, h.idle, h.begins, h.order, h.taken⟩

/-- A side that has no operation left that reads shuts down. -/
theorem shutdown_heard (g' got : List UInt8) (h : Writes g c sent)
    (hopen : c.socketOpen = !c.dropped) (hops : c.handshakeOps = []) (hreads : c.reading = false)
    (hdelivered : c.delivered = [] ∨
      ∃ rest, got = frame g' ++ rest ∧ c.delivered = (decode rest).1.map .fromVector)
    (hlinked : Linked c.shutdown) : WritesOn g c c.shutdown ∧ Heard g' got c.shutdown := by
  have hrests := shutdown_rests hopen
  have hinbound := shutdown_inbound c
  refine ⟨rests_on h hrests hlinked, .deaf (hrests.ops.trans hops)
    ((reading_of_inbound hinbound).trans hreads) ?_⟩
  rw [shutdown_delivered]
  exact hdelivered

/-- The handshake of the peer is at hand, and this side's is done: it starts to
read, and to write what is queued. -/
theorem finish_heard (g' : List UInt8) (h : Writes g c []) (hvalid : c.messageQueue.Valid)
    (hdrained : c.terminated = true → c.messageQueue = .init) (hops : c.handshakeOps = [])
    (hwire : c.wire = frame g) (hdelivered : c.delivered = [])
    (hreads : c.pending.filter AsyncOp.isRead = []) {c1 : Connection}
    (hc1 : c1 = { c with readBuffer := [], inMessageLen := 0, handshakeDone := true }) :
    WritesOn g c c1.readNext.writeQueued ∧ Heard g' (frame g') c1.readNext.writeQueued := by
  have hvalid1 : c1.readNext.messageQueue.Valid := by rw [hc1]; exact hvalid
  have hwire1 : c1.readNext.wire = c.wire := by
    rw [readNext_wire, hc1]
    rfl
  have hwrites1 : Writes g c1.readNext [] := by
    have hstage : Stage g c1.readNext [] := by
      refine .talking ?_ (by rw [hc1]; rfl) (by rw [hwire1, hwire]; simp [frames])
      rw [readNext_handshakeOps, hc1]
      exact hops
    subst hc1
    exact ⟨hstage, fun hnot => absurd hnot Bool.true_eq_false.mp, h.idle, h.begins, h.order,
      h.taken⟩
  obtain ⟨sent, hwrites⟩ := writeQueued_writes hwrites1 (by rw [hc1]; rfl) hvalid1
    (by rw [hc1]; exact hdrained)
  refine ⟨⟨⟨sent, hwrites⟩, hwire1 ▸ writeQueued_wire hvalid1⟩, .live ?_⟩
  have hinbound : c1.readNext.inbound = ⟨true, 0, [], [], [.read c1.layer]⟩ := by
    rw [hc1]
    simp [readNext, start, inbound, hreads, hdelivered, AsyncOp.isRead]
  rw [writeQueued_inbound hvalid1, hinbound, ← List.append_nil (frame g')]
  exact .talking [] [] 0 [] c1.layer decode_nil

/-- The length of the peer's handshake and a part of it are at hand, and no
operation is outstanding that reads. -/
theorem handshakeBody_heard (h : Writes g c sent) (hlinked : Linked c)
    (hany : c.pending.any (· == .handshakeRead) = true) (hdelivered : c.delivered = [])
    (hreads : c.pending.filter AsyncOp.isRead = []) {buffer : List UInt8}
    (hbuffer : buffer <+: g' ++ more) {c1 : Connection}
    (hc1 : c1 = { c.without (· == .handshakeRead) with
      inMessageLen := g'.length
      readBuffer := buffer })
    (hlinked' : Linked c1.handshakeBody) :
    WritesOn g c c1.handshakeBody ∧
      Heard g' (le32 g'.length ++ buffer) c1.handshakeBody := by
  have hmem := handshakeOps_any isHandshakeRead_handshake hany
  obtain ⟨hsent, hdone, hops, hstage⟩ := stage_any h.stage hmem
  have hgreeted : c.wire = frame g := by
    rcases hstage with ⟨hconnecting, _⟩ | ⟨_, hgreeted⟩
    · cases hconnecting
    · exact hgreeted
  have hops1 : c1.handshakeOps = [] := by
    rw [hc1, ← hops]
    exact handshakeOps_without isHandshakeRead_handshake
  have hreads1 : c1.pending.filter AsyncOp.isRead = [] := by
    rw [hc1, ← hreads]
    exact filter_eraseP_of_disjoint (fun op hop => by rw [eq_of_beq hop]; rfl) c.pending
  have hwrites1 : Writes g c1 sent := by
    rw [hc1]
    exact writes_read (writes_without h _) c.delivered g'.length buffer
  have hwire1 : c1.wire = c.wire := by rw [hc1]; rfl
  have hlen1 : c1.inMessageLen = g'.length := by rw [hc1]
  have hbuffer1 : c1.readBuffer = buffer := by rw [hc1]
  have hdelivered1 : c1.delivered = [] := by rw [hc1]; exact hdelivered
  unfold handshakeBody at hlinked' ⊢
  rw [hlen1, hbuffer1] at hlinked' ⊢
  by_cases hshort : buffer.length < g'.length
  · rw [if_pos hshort]
    refine ⟨start_on h isHandshakeRead_handshake hany hc1 .handshakeRead rfl ?_, .live ?_⟩
    · intro c' hops' hdone' hwire'
      rw [hgreeted] at hwire'
      rw [hsent]
      exact .listening hops' hdone' (hwire'.trans (List.append_nil _))
    · rw [start_inbound c1 rfl]
      have hinbound1 : c1.inbound = ⟨false, g'.length, buffer, [], []⟩ := by
        unfold inbound
        rw [hlen1, hbuffer1, hdelivered1, hreads1]
        have hdone1 : c1.handshakeDone = false := by rw [hc1]; exact hdone
        rw [hdone1]
      rw [hinbound1]
      exact .greeting buffer hshort
  rw [if_neg hshort] at hlinked' ⊢
  by_cases hlong : buffer.length > g'.length
  · rw [if_pos hlong] at hlinked' ⊢
    have hopen1 : c1.socketOpen = !c1.dropped := by rw [hc1]; exact hlinked.once.socket
    have hreading1 : c1.reading = false := by
      rw [reading_eq, hreads1]
      rfl
    obtain ⟨hon, hheard⟩ := shutdown_heard g' (le32 g'.length ++ buffer) hwrites1
      hopen1 hops1 hreading1 (Or.inl hdelivered1) hlinked'
    exact ⟨⟨hon.writes, hwire1 ▸ hon.wire⟩, hheard⟩
  · rw [if_neg hlong]
    have hwhole : buffer = g' := by
      refine (List.prefix_of_prefix_length_le hbuffer (List.prefix_append _ _) ?_).eq_of_length ?_
      · exact Nat.le_of_not_lt hlong
      · exact Nat.le_antisymm (Nat.le_of_not_lt hlong) (Nat.le_of_not_lt hshort)
    have hdrop : buffer.drop g'.length = [] := by rw [hwhole, List.drop_length]
    rw [hdrop, hwhole]
    rw [hsent] at hwrites1
    obtain ⟨hon, hheard⟩ := finish_heard g' hwrites1 (by rw [hc1]; exact hlinked.once.valid)
      (by rw [hc1]; exact hlinked.once.drained) hops1 (hwire1.trans hgreeted) hdelivered1 hreads1
      rfl
    exact ⟨⟨hon.writes, hwire1 ▸ hon.wire⟩, hheard⟩

/-! The handler of a read of the handshake, case by case. -/

theorem onIanHandshake_short (hlen : c.inMessageLen = 0) (hbuffer : c.readBuffer = [])
    (h : chunk.length < 4) :
    c.onIanHandshake (.ok chunk) = { c with readBuffer := chunk }.shutdown := by
  unfold onIanHandshake
  dsimp only
  rw [if_pos hlen, hbuffer, List.nil_append, if_pos h]

theorem onIanHandshake_header (hlen : c.inMessageLen = 0) (hbuffer : c.readBuffer = [])
    (h4 : 4 ≤ chunk.length) (hne : readLe32 chunk ≠ 0) :
    c.onIanHandshake (.ok chunk) = { c with
      inMessageLen := readLe32 chunk
      readBuffer := chunk.drop 4 }.handshakeBody := by
  unfold onIanHandshake
  dsimp only
  rw [if_pos hlen, hbuffer, List.nil_append, if_neg (Nat.not_lt.mpr h4)]
  exact if_neg hne

theorem onIanHandshake_more (hlen : c.inMessageLen ≠ 0) :
    c.onIanHandshake (.ok chunk) =
      { c with readBuffer := c.readBuffer ++ chunk }.handshakeBody := by
  unfold onIanHandshake
  exact if_neg hlen

/-- A read of the handshake, whatever it returns. -/
theorem handshakeRead_heard (h : Writes g c sent) (hlinked : Linked c) (hheard : Heard g' got c)
    (hg : Framable g') (hgot : got ++ chunk <+: frame g' ++ more)
    (hany : c.pending.any (· == .handshakeRead) = true)
    (hlinked' : Linked ((c.without (· == .handshakeRead)).onIanHandshake (.ok chunk))) :
    WritesOn g c ((c.without (· == .handshakeRead)).onIanHandshake (.ok chunk)) ∧
      Heard g' (got ++ chunk) ((c.without (· == .handshakeRead)).onIanHandshake (.ok chunk)) := by
  have hmem := handshakeOps_any isHandshakeRead_handshake hany
  obtain ⟨_, hdone, hops, _⟩ := stage_any h.stage hmem
  have hne : g'.length ≠ 0 := Nat.ne_of_gt hg.1
  cases hheard with
  | deaf ops reads delivered =>
    rw [ops] at hmem
    cases hmem
  | live hrecv =>
    generalize hinb : c.inbound = inb at hrecv
    cases hrecv with
    | silent =>
      injection hinb with _ hlen hbuffer hdelivered hreads
      rw [List.nil_append] at hgot ⊢
      rcases Nat.lt_or_ge chunk.length 4 with hshort | h4
      · rw [onIanHandshake_short (c := c.without (· == .handshakeRead)) hlen hbuffer hshort]
          at hlinked' ⊢
        have hwrites := writes_read (writes_without h (· == .handshakeRead)) c.delivered
          c.inMessageLen chunk
        have hreading : (c.without (· == .handshakeRead)).reading = false := by
          rw [reading_of_inbound (without_inbound fun op hop => by rw [eq_of_beq hop]; rfl),
            reading_eq, hreads]
          rfl
        obtain ⟨hon, hheard⟩ := shutdown_heard g' chunk hwrites
          hlinked.once.socket ((handshakeOps_without isHandshakeRead_handshake).trans hops)
          hreading (Or.inl hdelivered) hlinked'
        exact ⟨⟨hon.writes, hon.wire⟩, hheard⟩
      · obtain ⟨hread, hchunk, hrest⟩ := header_begins hg hgot h4
        rw [onIanHandshake_header (c := c.without (· == .handshakeRead)) hlen hbuffer h4
          (by rw [hread]; exact hne), hread] at hlinked' ⊢
        have hbody := handshakeBody_heard h hlinked hany hdelivered hreads hrest rfl hlinked'
        rw [hchunk] at hbody
        exact hbody
    | greeting buffer short =>
      injection hinb with _ hlen hbuffer hdelivered hreads
      have hlen1 : (c.without (· == .handshakeRead)).inMessageLen ≠ 0 := by
        show c.inMessageLen ≠ 0
        rw [hlen]
        exact hne
      rw [List.append_assoc] at hgot ⊢
      rw [frame, List.append_assoc] at hgot
      rw [onIanHandshake_more hlen1] at hlinked' ⊢
      refine handshakeBody_heard h hlinked hany hdelivered hreads
        ((List.prefix_append_right_inj _).mp hgot) ?_ hlinked'
      rw [← hlen, ← hbuffer]
      rfl
    | talking rest payloads len buffer layer hdecode =>
      injection hinb with hdone'
      cases hdone.symm.trans hdone'

/-- A read of the data stream that returns bytes. -/
theorem read_heard (h : Writes g c sent) (hlinked : Linked c) (hheard : Heard g' got c)
    (hany : c.pending.any AsyncOp.isRead = true)
    (hlinked' : Linked ((c.without AsyncOp.isRead).onRead (.ok chunk))) :
    WritesOn g c ((c.without AsyncOp.isRead).onRead (.ok chunk)) ∧
      Heard g' (got ++ chunk) ((c.without AsyncOp.isRead).onRead (.ok chunk)) := by
  have hreading : c.reading = true := hany
  have hwrites := writes_without h AsyncOp.isRead
  cases hheard with
  | deaf ops reads delivered => cases reads.symm.trans hreading
  | live hrecv =>
    generalize hinb : c.inbound = inb at hrecv
    have hreads : c.pending.filter AsyncOp.isRead = inb.reads := by rw [← hinb]; rfl
    cases hrecv with
    | silent =>
      rw [reading_eq, hreads] at hreading
      cases hreading
    | greeting buffer short =>
      rw [reading_eq, hreads] at hreading
      cases hreading
    | talking rest payloads len buffer layer hdecode =>
      injection hinb with hdone hlen hbuffer hdelivered _
      have hops := (talking_wire h.stage hdone).1
      have hnone : (c.without AsyncOp.isRead).pending.filter AsyncOp.isRead = [] := by
        show (c.pending.eraseP AsyncOp.isRead).filter AsyncOp.isRead = []
        rw [filter_eraseP_self, hreads]
        rfl
      have happ := decode_append rest chunk
      rw [hdecode] at happ
      dsimp only at happ
      have hend := onRead_decode (c.without AsyncOp.isRead) chunk hlinked.len
      have hunf : unfinished (c.without AsyncOp.isRead).inMessageLen
          (c.without AsyncOp.isRead).readBuffer = unfinished len buffer := by
        rw [← hlen, ← hbuffer]
        rfl
      unfold loopEnd at hend
      rw [hunf] at hend
      generalize hnext : decode (unfinished len buffer ++ chunk) = next at happ hend
      obtain ⟨payloads', tail⟩ := next
      have hall : c.delivered ++ payloads'.map .fromVector =
          (decode (rest ++ chunk)).1.map .fromVector := by
        rw [happ, hdelivered, List.map_append]
      cases tail with
      | more len' buffer' =>
        dsimp only at hend
        have hread := writes_read hwrites (c.delivered ++ payloads'.map .fromVector) len' buffer'
        rw [hend] at hlinked' ⊢
        obtain ⟨hon, hwire⟩ := rests_on hread (readNext_rests _) hlinked'
        have hinbound :
            (decoded (c.without AsyncOp.isRead) payloads' len' buffer').readNext.inbound =
              ⟨true, len', buffer', (payloads ++ payloads').map .fromVector, [.read c.layer]⟩ := by
          have hlast : ((c.without AsyncOp.isRead).pending ++ [AsyncOp.read c.layer]).filter
              AsyncOp.isRead = [.read c.layer] := by
            rw [List.filter_append, hnone]
            rfl
          rw [List.map_append, ← hdelivered, ← hdone]
          exact congrArg (Inbound.mk _ _ _ _) hlast
        refine ⟨⟨hon, hwire⟩, .live ?_⟩
        rw [hinbound, List.append_assoc]
        exact .talking (rest ++ chunk) _ _ _ _ happ
      | rejected =>
        obtain ⟨rest', hrest'⟩ := hend
        have hread := writes_read hwrites (c.delivered ++ payloads'.map .fromVector) 0 rest'
        rw [hrest'] at hlinked' ⊢
        have hdeaf : (c.without AsyncOp.isRead).reading = false := by
          rw [reading_eq, hnone]
          rfl
        obtain ⟨hon, hheard⟩ := shutdown_heard g' (frame g' ++ (rest ++ chunk)) hread
          hlinked.once.socket (handshakeOps_without_nil hops _) hdeaf
          (Or.inr ⟨_, rfl, hall⟩) hlinked'
        rw [List.append_assoc]
        exact ⟨⟨hon.writes, hon.wire⟩, hheard⟩

/-- A read that fails. -/
theorem readError_heard (h : Writes g c sent) (hlinked : Linked c) (hheard : Heard g' got c)
    (hany : c.pending.any AsyncOp.isRead = true) (ec : ErrorKind)
    (hlinked' : Linked ((c.without AsyncOp.isRead).handleError ec)) :
    WritesOn g c ((c.without AsyncOp.isRead).handleError ec) ∧
      Heard g' got ((c.without AsyncOp.isRead).handleError ec) := by
  have hreading : c.reading = true := hany
  have hrests : Rests (c.without AsyncOp.isRead) ((c.without AsyncOp.isRead).handleError ec) :=
    handleError_rests (c := c.without AsyncOp.isRead) hlinked.once.socket ec
  obtain ⟨hon, hwire⟩ := rests_on (writes_without h AsyncOp.isRead) hrests hlinked'
  have hinbound := handleError_inbound (c.without AsyncOp.isRead) ec
  have hdelivered' : ((c.without AsyncOp.isRead).handleError ec).delivered = c.delivered :=
    congrArg Inbound.delivered hinbound
  refine ⟨⟨hon, hwire⟩, ?_⟩
  cases hheard with
  | deaf ops reads delivered => cases reads.symm.trans hreading
  | live hrecv =>
    generalize hinb : c.inbound = inb at hrecv
    have hreads : c.pending.filter AsyncOp.isRead = inb.reads := by rw [← hinb]; rfl
    cases hrecv with
    | silent =>
      rw [reading_eq, hreads] at hreading
      cases hreading
    | greeting buffer short =>
      rw [reading_eq, hreads] at hreading
      cases hreading
    | talking rest payloads len buffer layer hdecode =>
      injection hinb with hdone _ _ hdelivered _
      have hops := (talking_wire h.stage hdone).1
      refine .deaf (hrests.ops.trans (handshakeOps_without_nil hops _)) ?_ (Or.inr ⟨rest, rfl, ?_⟩)
      · rw [reading_of_inbound hinbound, reading_eq]
        show (!((c.pending.eraseP AsyncOp.isRead).filter AsyncOp.isRead).isEmpty) = false
        rw [filter_eraseP_self, hreads]
        rfl
      · rw [hdelivered', hdecode]
        exact hdelivered

theorem passes_side (hheard : Heard g' got c) (hpasses : Passes g c c') :
    WritesOn g c c' ∧ Heard g' (got ++ []) c' := by
  rw [List.append_nil]
  exact ⟨hpasses.on, passes_heard hpasses hheard⟩

/-- Any strand step, with any outcome. -/
theorem side_step (h : Writes g c sent) (hlinked : Linked c) (hheard : Heard g' got c)
    (hg : Framable g') {e : Event} (hgot : got ++ e.chunk <+: frame g' ++ more)
    (hsize : ∀ m, e = .send m → m.bytes.length < 2 ^ 32)
    (hstep : step (.fromVector g) c e = some c') :
    WritesOn g c c' ∧ Heard g' (got ++ e.chunk) c' := by
  have hlinked' := step_linked hlinked hstep
  cases (step_cases hstep).2 with
  | send m => exact passes_side hheard (send_passes h hlinked (hsize m rfl))
  | sslHandshake result hany =>
    exact passes_side hheard (sslHandshake_passes h hany result hlinked')
  | handshakeSent result hany =>
    exact passes_side hheard (handshakeSent_passes h hlinked hany result hlinked')
  | handshakeRead result hany =>
    cases result with
    | ok chunk => exact handshakeRead_heard h hlinked hheard hg hgot hany hlinked'
    | error ec =>
      have hreads : ∀ op : AsyncOp, (op == .handshakeRead) = true → op.isRead = false :=
        fun op hop => by rw [eq_of_beq hop]; rfl
      exact passes_side hheard (rests_passes h hreads
        (handleError_rests (c := c.without (· == .handshakeRead)) hlinked.once.socket ec)
        (handleError_inbound _ ec) hlinked')
  | read result hany =>
    cases result with
    | ok chunk => exact read_heard h hlinked hheard hany hlinked'
    | error ec =>
      have hfailed := readError_heard h hlinked hheard hany ec hlinked'
      rw [← List.append_nil got] at hfailed
      exact hfailed
  | wrote result hany => exact passes_side hheard (wrote_passes h hlinked hany result hlinked')
  | shutdownDone result hany =>
    have hreads : ∀ op : AsyncOp, (op == .sslShutdown) = true → op.isRead = false :=
      fun op hop => by rw [eq_of_beq hop]; rfl
    exact passes_side hheard (rests_passes h hreads (onShutdown_rests _ result)
      (onShutdown_inbound _ result) hlinked')

/-! ## What was written, delivered -/

theorem stage_wire (h : Stage g c sent) :
    c.wire <+: frame g ++ frames (sent.map Message.bytes) := by
  cases h with
  | connecting ops done wire =>
    rw [wire]
    exact List.nil_prefix
  | greeting data ops done wire =>
    rw [wire]
    exact List.prefix_append _ _
  | listening ops done wire =>
    rw [wire]
    exact List.prefix_append _ _
  | failed ops done wire => exact wire.trans (List.prefix_append _ _)
  | talking ops done wire => exact ⟨[], by rw [wire, List.append_nil]⟩

theorem map_fromVector_taken {ms : List Message}
    (h : ∀ m ∈ ms, m.isEmpty = false ∧ m.bytes.length < 2 ^ 32) :
    (ms.map Message.bytes).map Message.fromVector = ms := by
  have hself : ∀ m ∈ ms, Message.fromVector m.bytes = m :=
    fun m hm => (Message.eq_fromVector (h m hm).1).symm
  rw [List.map_map]
  exact (List.map_congr_left hself).trans (List.map_id ms)

/-- What decodes from a part of what the peer has written. -/
theorem decode_begins {peer : Connection} (hpeer : Writes g' peer sent) {rest : List UInt8}
    (hrest : frame g' ++ rest <+: peer.wire) :
    (decode rest).1.map .fromVector <+: peer.accepted := by
  have hbegins := (List.prefix_append_right_inj _).mp (hrest.trans (stage_wire hpeer.stage))
  have htaken : ∀ m ∈ sent, m.isEmpty = false ∧ m.bytes.length < 2 ^ 32 :=
    fun m hm => hpeer.taken m (hpeer.begins.subset hm)
  have hsized : ∀ p ∈ sent.map Message.bytes, p.length < 2 ^ 32 := by
    intro p hp
    obtain ⟨m, hm, rfl⟩ := List.mem_map.mp hp
    exact (htaken m hm).2
  have hall : (decode (frames (sent.map Message.bytes))).1 <+: sent.map Message.bytes := by
    rcases decode_sized_frames hsized with hall | ⟨hpart, _⟩
    · exact hall ▸ List.prefix_rfl
    · exact hpart
  have hdecoded := ((decode_initial hbegins).trans hall).map Message.fromVector
  rw [map_fromVector_taken htaken] at hdecoded
  exact hdecoded.trans hpeer.begins

/-- A side that reads on has made of all that an idle peer has written the
messages the peer has taken. -/
theorem heard_all {peer : Connection} (hpeer : Writes g' peer sent) (hheard : Heard g' peer.wire c)
    (hreading : c.reading = true) (hup : peer.terminated = false)
    (hidle : peer.isWriting = false) : c.delivered = peer.accepted := by
  have hdone : peer.handshakeDone = true := by
    cases hd : peer.handshakeDone with
    | true => rfl
    | false => cases hidle.symm.trans (hpeer.waits hd).1
  have htaken : peer.accepted = sent := by
    rw [hpeer.order hup, hpeer.idle hidle, List.append_nil]
  cases hheard with
  | deaf ops reads delivered => cases reads.symm.trans hreading
  | live hrecv =>
    generalize hgot : peer.wire = got at hrecv
    generalize hinb : c.inbound = inb at hrecv
    have hreads : c.pending.filter AsyncOp.isRead = inb.reads := by rw [← hinb]; rfl
    cases hrecv with
    | silent =>
      rw [reading_eq, hreads] at hreading
      cases hreading
    | greeting buffer short =>
      rw [reading_eq, hreads] at hreading
      cases hreading
    | talking rest payloads len buffer layer hdecode =>
      injection hinb with _ _ _ hdelivered _
      have hrest : rest = frames (sent.map Message.bytes) := by
        rw [(talking_wire hpeer.stage hdone).2] at hgot
        exact (List.append_cancel_left hgot).symm
      have hall := hpeer.taken
      rw [htaken] at hall
      have hsized : ∀ p ∈ sent.map Message.bytes, p.length < 2 ^ 32 := by
        intro p hp
        obtain ⟨m, hm, rfl⟩ := List.mem_map.mp hp
        exact (hall m hm).2
      rw [hrest] at hdecode
      rcases decode_sized_frames hsized with hwhole | ⟨_, hrejected⟩
      · rw [hdecode] at hwhole
        injection hwhole with hpayloads _
        rw [hdelivered, hpayloads, htaken]
        exact map_fromVector_taken hall
      · rw [hdecode] at hrejected
        cases hrejected

theorem heard_prefix {peer : Connection} (hpeer : Writes g' peer sent) (hheard : Heard g' got c)
    (hgot : got <+: peer.wire) : c.delivered <+: peer.accepted := by
  cases hheard with
  | live hrecv =>
    have hdelivered : c.delivered = c.inbound.delivered := rfl
    rw [hdelivered]
    generalize c.inbound = inb at hrecv
    cases hrecv with
    | silent => exact List.nil_prefix
    | greeting buffer short => exact List.nil_prefix
    | talking rest payloads len buffer layer hdecode =>
      have hbegins := decode_begins hpeer hgot
      rw [hdecode] at hbegins
      exact hbegins
  | deaf ops reads delivered =>
    rcases delivered with hnone | ⟨rest, rfl, hdecoded⟩
    · rw [hnone]
      exact List.nil_prefix
    · rw [hdecoded]
      exact decode_begins hpeer hgot

end FailuresLemmas

/-! ## Both sides -/

open FailuresLemmas PeersLemmas Connection

/-- Each side has written a part of what it has taken, and has made the right
thing of what it has read. -/
structure Link.Sound (greeting : Side → Payload) (l : Link) : Prop where
  linked : ∀ s, Linked (l.conn s)
  writes : ∀ s, ∃ sent, Writes (greeting s).1 (l.conn s) sent
  bound : ∀ s, l.read s ≤ (l.conn s.other).wire.length
  heard : ∀ s, Heard (greeting s.other).1 ((l.conn s.other).wire.take (l.read s)) (l.conn s)

namespace FailuresLemmas

variable {greeting : Side → Payload} {l l' : Link}

theorem sound_set (h : l.Sound greeting) (s : Side) {c : Connection} {r : Nat} (hlinked : Linked c)
    (hon : WritesOn (greeting s).1 (l.conn s) c) (hbound : r ≤ (l.conn s.other).wire.length)
    (hheard : Heard (greeting s.other).1 ((l.conn s.other).wire.take r) c) :
    (l.set s c r).Sound greeting := by
  have hconn : (l.set s c r).conn s = c := Function.update_self ..
  have hread : (l.set s c r).read s = r := Function.update_self ..
  have hconn' : (l.set s c r).conn s.other = l.conn s.other :=
    Function.update_of_ne (other_ne s) ..
  have hread' : (l.set s c r).read s.other = l.read s.other :=
    Function.update_of_ne (other_ne s) ..
  obtain ⟨more, hmore⟩ := hon.wire
  refine ⟨fun t => ?_, fun t => ?_, fun t => ?_, fun t => ?_⟩
  · rcases eq_or_other s t with rfl | rfl
    · rw [hconn]
      exact hlinked
    · rw [hconn']
      exact h.linked s.other
  · rcases eq_or_other s t with rfl | rfl
    · rw [hconn]
      exact hon.writes
    · rw [hconn']
      exact h.writes s.other
  · rcases eq_or_other s t with rfl | rfl
    · rw [hread, hconn']
      exact hbound
    · have hold := h.bound s.other
      rw [other_other] at hold ⊢
      rw [hread', hconn, ← hmore, List.length_append]
      exact Nat.le_add_right_of_le hold
  · rcases eq_or_other s t with rfl | rfl
    · rw [hconn, hread, hconn']
      exact hheard
    · have hold := h.heard s.other
      have hle := h.bound s.other
      rw [other_other] at hold hle ⊢
      rw [hconn', hread', hconn, ← hmore, List.take_append_of_le_length hle]
      exact hold

theorem anyStep_sound (h : l.Sound greeting) {e : Side × Connection.Event} (hC : l.SizeFits e)
    (hstep : l.anyStep greeting e = some l') : l'.Sound greeting := by
  obtain ⟨s, e⟩ := e
  unfold Link.anyStep at hstep
  split at hstep
  · next hchunk =>
    obtain ⟨c, hturn, rfl⟩ := Option.map_eq_some_iff.mp hstep
    have hincoming : l.incoming s = (l.conn s.other).wire.drop (l.read s) := rfl
    rw [hincoming] at hchunk
    have htake : (l.conn s.other).wire.take (l.read s) ++ e.chunk =
        (l.conn s.other).wire.take (l.read s + e.chunk.length) := by
      rw [List.take_add, ← List.prefix_iff_eq_take.mp hchunk]
    obtain ⟨sent, hwrites⟩ := h.writes s
    obtain ⟨sent', hwrites'⟩ := h.writes s.other
    have hgot : (l.conn s.other).wire.take (l.read s) ++ e.chunk <+:
        frame (greeting s.other).1 ++ frames (sent'.map Message.bytes) := by
      rw [htake]
      exact (List.take_prefix _ _).trans (stage_wire hwrites'.stage)
    have hsize : ∀ m, e = .send m → m.bytes.length < 2 ^ 32 := by
      rintro m rfl
      exact hC
    obtain ⟨hon, hheard⟩ := side_step hwrites (h.linked s) (h.heard s) (greeting s.other).2 hgot
      hsize hturn
    rw [htake] at hheard
    refine sound_set h s (step_linked (h.linked s) hturn) hon ?_ hheard
    have hle : e.chunk.length ≤ _ := hchunk.length_le
    have hbound := h.bound s
    rw [List.length_drop] at hle
    show l.read s + e.chunk.length ≤ _
    omega
  · cases hstep

theorem init_sound (safeLink : Bool) : (Link.init safeLink).Sound greeting where
  linked _ := run_linked safeLink
  writes _ := ⟨[], .connecting rfl rfl rfl, fun _ => ⟨rfl, rfl⟩, nofun, List.nil_prefix,
    fun _ => rfl, nofun⟩
  bound _ := Nat.zero_le _
  heard _ := .live .silent

theorem run_sound {safeLink : Bool} {es : List (Side × Connection.Event)}
    (hC : AllSteps (Link.anyStep greeting) Link.SizeFits (Link.init safeLink) es)
    (hrun : runEvents (Link.anyStep greeting) (Link.init safeLink) es = some l) :
    l.Sound greeting :=
  run_invariant_of (fun _ _ _ hI hCe hstep => anyStep_sound hI hCe hstep) (init_sound safeLink) hC
    hrun

end FailuresLemmas

/-- On a safe link, whatever operations fail and however the handshakes are cut
into chunks, each side has delivered a prefix of what the other has taken. The
handshake messages have 1 to `2 ^ 32 - 1` bytes, and nothing larger than that is
sent: the header of a larger message is cut off to 32 bits. -/
theorem failing_peers_in_order (greeting : Side → Payload) (es : List (Side × Connection.Event))
    (l : Link) (hC : AllSteps (Link.anyStep greeting) Link.SizeFits (Link.init true) es)
    (hrun : runEvents (Link.anyStep greeting) (Link.init true) es = some l) (s : Side) :
    (l.conn s).delivered <+: (l.conn s.other).accepted := by
  have hsound := run_sound hC hrun
  obtain ⟨sent, hwrites⟩ := hsound.writes s.other
  exact heard_prefix hwrites (hsound.heard s) (List.take_prefix _ _)

/-- A run in which the write of a message fails after the peer has read it: the
message queued behind it is lost. -/
theorem failing_peers_in_order_write_error : ∃ es l,
    AllSteps (Link.anyStep fun _ => ⟨[9], by decide⟩) Link.SizeFits (Link.init true) es ∧
    runEvents (Link.anyStep fun _ => ⟨[9], by decide⟩) (Link.init true) es = some l ∧
    (l.conn .right).delivered = [.fromVector [7]] ∧
    (l.conn .left).accepted = [.fromVector [7], .fromVector [8]] ∧
    (l.conn .left).messageQueue.pending = [] ∧ (l.conn .left).completed = [] ∧
    (l.conn .right).delivered <+: (l.conn .left).accepted := by
  refine ⟨[(.left, .sslHandshake (.ok ())), (.left, .handshakeSent (.ok ())),
    (.right, .sslHandshake (.ok ())), (.right, .handshakeSent (.ok ())),
    (.left, .handshakeRead (.ok [1, 0, 0, 0, 9])), (.right, .handshakeRead (.ok [1, 0, 0, 0, 9])),
    (.left, .send (.fromVector [7])), (.left, .send (.fromVector [8])),
    (.right, .read (.ok [1, 0, 0, 0, 7])), (.left, .wrote (.error .other))], ?_, ?allSteps, ?run,
    ?_, ?_, ?_, ?_, failing_peers_in_order _ _ _ ?allSteps ?run .right⟩
  case allSteps => decide
  case run => rfl
  all_goals rfl

/-- On the same links, a side that still reads, and has read all of what a side
that has not terminated and is not writing has written, has delivered all of
what that side has taken. -/
theorem idle_peers_lose_nothing (greeting : Side → Payload) (es : List (Side × Connection.Event))
    (l : Link) (hC : AllSteps (Link.anyStep greeting) Link.SizeFits (Link.init true) es)
    (hrun : runEvents (Link.anyStep greeting) (Link.init true) es = some l) (s : Side)
    (hreading : (l.conn s).reading = true) (hread : l.incoming s = [])
    (hup : (l.conn s.other).terminated = false) (hidle : (l.conn s.other).isWriting = false) :
    (l.conn s).delivered = (l.conn s.other).accepted := by
  have hsound := run_sound hC hrun
  obtain ⟨sent, hwrites⟩ := hsound.writes s.other
  have hheard := hsound.heard s
  rw [List.take_of_length_le (List.drop_eq_nil_iff.mp hread)] at hheard
  exact heard_all hwrites hheard hreading hup hidle

/-- Two messages, one of which waits in the queue, both delivered. -/
theorem idle_peers_lose_nothing_two : ∃ es l,
    AllSteps (Link.anyStep fun _ => ⟨[9], by decide⟩) Link.SizeFits (Link.init true) es ∧
    runEvents (Link.anyStep fun _ => ⟨[9], by decide⟩) (Link.init true) es = some l ∧
    (l.conn .right).delivered = [.fromVector [7], .fromVector [8]] ∧
    (l.conn .right).delivered = (l.conn .left).accepted := by
  refine ⟨[(.left, .send (.fromVector [7])), (.left, .sslHandshake (.ok ())),
    (.left, .handshakeSent (.ok ())), (.right, .sslHandshake (.ok ())),
    (.right, .handshakeSent (.ok ())), (.right, .handshakeRead (.ok [1, 0, 0, 0, 9])),
    (.left, .send (.fromVector [8])), (.left, .handshakeRead (.ok [1, 0, 0, 0, 9])),
    (.left, .wrote (.ok ())), (.right, .read (.ok [1, 0, 0, 0, 7, 1])), (.left, .wrote (.ok ())),
    (.right, .read (.ok [0, 0, 0, 8]))], ?_, ?allSteps, ?run, ?_,
    idle_peers_lose_nothing _ _ _ ?allSteps ?run .right ?_ ?_ ?_ ?_⟩
  case allSteps => decide
  case run => rfl
  all_goals rfl

end Ian.Cluster
