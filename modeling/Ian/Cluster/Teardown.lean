import Ian.Cluster.Writing
import Ian.Common.Teardown

/-!
# How a cluster connection ends

`teardown` forgets everything of a cluster connection but what its end is
about. Each step in the strand is a step of `Teardown` (`step_teardown`),
whether the connection is running or terminated; `deliveries` is what the step
hands to `process_message`, and `derefsNull` says whether it reads through a
null message.
-/

namespace Ian.Cluster

open Ian.Lib Ian.Common DecodingLemmas

namespace Connection

def teardown (c : Connection) : Teardown where
  dropped := c.dropped
  shuttingDown := c.shuttingDown
  socketOpen := c.socketOpen
  closes := c.closes
  shutdowns := c.started.countP (· == .sslShutdown)
  openShutdowns := c.pending.countP (· == .sslShutdown)
  writes := c.started.countP AsyncOp.isMessageWrite
  openWrites := c.pending.countP AsyncOp.isMessageWrite
  queue := c.messageQueue
  delivered := c.delivered
  fault := c.fault

/-- `shutting_down_` or `dropped_` is set. -/
def terminated (c : Connection) : Bool := c.dropped || c.shuttingDown

/-- The messages the handler of an event passes to `process_message`: those
that end in the chunk read. -/
def deliveries (c : Connection) : Event → List Message
  | .read (.ok chunk) =>
    (decode (unfinished c.inMessageLen c.readBuffer ++ chunk)).1.map .fromVector
  | _ => []

/-- The handler of the event reads the size of a null message: `on_ssl_handshake`
if no handshake message has been assigned. -/
def derefsNull (handshake : Message) : Event → Bool
  | .sslHandshake (.ok ()) => handshake.isEmpty
  | _ => false

variable {c c' : Connection}

namespace TeardownLemmas

/-! ## Operations -/

theorem abort_teardown (c : Connection) : c.abort.teardown = c.teardown.abort := by
  have hdropped : c.teardown.dropped = c.dropped := rfl
  unfold abort Teardown.abort
  rw [hdropped]
  split <;> rfl

theorem start_teardown {op : AsyncOp} (hwrite : op.isMessageWrite = false)
    (hshutdown : (op == .sslShutdown) = false) (c : Connection) :
    (c.start op).teardown = c.teardown := by
  simp [start, teardown, List.countP_append, hwrite, hshutdown]

theorem sslShutdown_teardown (c : Connection) : (c.start .sslShutdown).teardown =
    { c.teardown with
      shutdowns := c.teardown.shutdowns + 1
      openShutdowns := c.teardown.openShutdowns + 1 } := by
  simp [start, teardown, List.countP_append, AsyncOp.isMessageWrite]

theorem shutdown_quiet (c : Connection) : c.teardown.Quiet c.shutdown.teardown := by
  unfold shutdown
  dsimp only
  split
  · exact .stay
  next hrunning =>
  split
  · have habort := abort_teardown { c with shutdownCalls := c.shutdownCalls + 1 }
    rw [habort]
    exact .abort
  have hrun : c.teardown.terminated = false := Bool.eq_false_iff.mpr hrunning
  split
  · next hclosed =>
    have hqueue := Teardown.shutdown_closed hrun (by simpa [teardown] using hclosed)
    show c.teardown.Quiet { c.teardown with queue := c.teardown.queue.clear }
    rw [← hqueue]
    exact .shutdown
  · next hopen =>
    have hstart := sslShutdown_teardown { c with
      shutdownCalls := c.shutdownCalls + 1
      messageQueue := c.messageQueue.clear }
    have hshutdown := Teardown.shutdown_open hrun (by simpa [teardown] using hopen)
    show c.teardown.Quiet { (start _ _).teardown with shuttingDown := true }
    rw [hstart]
    show c.teardown.Quiet { c.teardown with
      queue := c.teardown.queue.clear
      shutdowns := c.teardown.shutdowns + 1
      openShutdowns := c.teardown.openShutdowns + 1
      shuttingDown := true }
    rw [← hshutdown]
    exact .shutdown

theorem handleError_quiet (c : Connection) (ec : ErrorKind) :
    c.teardown.Quiet (c.handleError ec).teardown := by
  unfold handleError
  split
  · exact .stay
  cases ec with
  | reset =>
    rw [abort_teardown]
    exact .abort
  | canceled => exact .stay
  | other => exact shutdown_quiet c

theorem handleWriteError_quiet (c : Connection) (ec : ErrorKind) :
    c.teardown.Quiet (c.handleWriteError ec).teardown :=
  handleError_quiet { c with writeFailed := true } ec

theorem doWriteMessage_teardown (c : Connection) {m : Message} (hm : m.isEmpty = false) :
    (c.doWriteMessage m).teardown =
      { c.teardown with
        writes := c.teardown.writes + 1
        openWrites := c.teardown.openWrites + 1 } := by
  rw [Message.eq_fromVector hm]
  simp [doWriteMessage, assignOutbound, assignLength, Message.fromVector, start, teardown,
    List.countP_append, AsyncOp.isMessageWrite]

theorem writeQueued_act (hvalid : c.messageQueue.Valid) :
    c.teardown.Act c.writeQueued.teardown := by
  unfold writeQueued
  rcases MessageQueue.tryPop_spec hvalid with ⟨hnone, _⟩ | ⟨m, queue, hsome, hm, _, _⟩
  · rw [hnone]
    exact .quiet .stay
  · rw [hsome]
    dsimp only
    rw [doWriteMessage_teardown _ hm]
    exact .pop hsome

theorem sendMessage_act (hvalid : c.messageQueue.Valid) (m : Message) :
    c.teardown.Act (c.sendMessage m).teardown := by
  unfold sendMessage sendMessageBody
  split
  · exact .quiet .stay
  next hempty =>
  have hm : m.isEmpty = false := by simpa using hempty
  split
  · exact .quiet .stay
  next hflags =>
  have hrunning : c.teardown.terminated = false := Bool.eq_false_iff.mpr hflags
  dsimp only
  split
  · rw [doWriteMessage_teardown _ hm]
    exact .write hrunning
  · obtain ⟨queue, hpush, _⟩ := MessageQueue.push_spec hvalid hm
    rw [hpush]
    exact .push hrunning hm hpush

/-! ## Handlers -/

theorem onShutdown_quiet (hshutting : c.shuttingDown = true) (result : Except ErrorKind Unit) :
    c.teardown.Quiet (c.onShutdown result).teardown := by
  unfold onShutdown
  split
  · exact .stay
  · next hdropped => exact .close (Bool.eq_false_iff.mpr hdropped) hshutting

theorem onSslHandshake_quiet (hfault : c.fault = false) (handshake : Message)
    (result : Except ErrorKind Unit) :
    (c.teardown.noting [] (derefsNull handshake (.sslHandshake result))).Quiet
      (c.onSslHandshake handshake result).teardown := by
  have hsame : c.teardown.noting [] false = c.teardown := Teardown.noting_nil hfault
  cases result with
  | error ec =>
    show (c.teardown.noting [] false).Quiet c.abort.teardown
    rw [hsame, abort_teardown]
    exact .abort
  | ok u =>
    obtain ⟨impl⟩ := handshake
    cases impl with
    | none =>
      have hnull : (c.onSslHandshake ⟨none⟩ (.ok u)).teardown = c.teardown.noting [] true := by
        simp [onSslHandshake, assignOutbound, teardown, Teardown.noting]
      rw [hnull]
      exact .stay
    | some payload =>
      have hstart : (c.onSslHandshake ⟨some payload⟩ (.ok u)).teardown = c.teardown := by
        simp [onSslHandshake, assignOutbound, assignLength, start, teardown, List.countP_append,
          AsyncOp.isMessageWrite]
      show (c.teardown.noting [] false).Quiet _
      rw [hsame, hstart]
      exact .stay

theorem onIanHandshakeSent_quiet (c : Connection) (result : Except ErrorKind Unit) :
    c.teardown.Quiet (c.onIanHandshakeSent result).teardown := by
  cases result with
  | error ec => exact handleWriteError_quiet (c.assignOutbound .empty) ec
  | ok u =>
    have hstart : ((c.assignOutbound .empty).start .handshakeRead).teardown = c.teardown :=
      start_teardown rfl rfl _
    show c.teardown.Quiet ((c.assignOutbound .empty).start .handshakeRead).teardown
    rw [hstart]
    exact .stay

theorem handshakeBody_act (hvalid : c.messageQueue.Valid) :
    c.teardown.Act c.handshakeBody.teardown := by
  unfold handshakeBody
  split
  · rw [start_teardown rfl rfl]
    exact .quiet .stay
  split
  · exact .quiet (shutdown_quiet c)
  · have hread : { c with
        readBuffer := c.readBuffer.drop c.inMessageLen
        inMessageLen := 0
        handshakeDone := true }.readNext.teardown = c.teardown := start_teardown rfl rfl _
    rw [← hread]
    exact writeQueued_act hvalid

theorem onIanHandshake_act (hvalid : c.messageQueue.Valid)
    (result : Except ErrorKind (List UInt8)) :
    c.teardown.Act (c.onIanHandshake result).teardown := by
  cases result with
  | error ec => exact .quiet (handleError_quiet c ec)
  | ok chunk =>
    have hshutdown : ∀ len buffer, c.teardown.Act
        ({ c with inMessageLen := len, readBuffer := buffer } : Connection).shutdown.teardown :=
      fun len buffer => .quiet (shutdown_quiet { c with inMessageLen := len, readBuffer := buffer })
    have hbody : ∀ len buffer, c.teardown.Act (handshakeBody
        { c with inMessageLen := len, readBuffer := buffer }).teardown :=
      fun len buffer =>
        handshakeBody_act (c := { c with inMessageLen := len, readBuffer := buffer }) hvalid
    unfold onIanHandshake
    dsimp only
    split
    · split
      · exact hshutdown _ _
      split
      · exact hshutdown _ _
      · exact hbody _ _
    · exact hbody _ _

theorem onRead_quiet (hfault : c.fault = false) (hlen : c.inMessageLen < 2 ^ 32)
    (result : Except ErrorKind (List UInt8)) :
    (c.teardown.noting (c.deliveries (.read result)) false).Quiet (c.onRead result).teardown := by
  cases result with
  | error ec =>
    show (c.teardown.noting [] false).Quiet _
    rw [Teardown.noting_nil hfault]
    exact handleError_quiet c ec
  | ok chunk =>
    have hend := onRead_decode c chunk hlen
    unfold loopEnd at hend
    unfold deliveries
    dsimp only
    generalize decode (unfinished c.inMessageLen c.readBuffer ++ chunk) = d at hend ⊢
    obtain ⟨payloads, tail⟩ := d
    have hdecoded : ∀ len rest, (decoded c payloads len rest).teardown =
        c.teardown.noting (payloads.map .fromVector) false := by
      intro len rest
      simp only [decoded, teardown, Teardown.noting, hfault]
    cases tail with
    | more len rest =>
      have hread : (decoded c payloads len rest).readNext.teardown =
          (decoded c payloads len rest).teardown := start_teardown rfl rfl _
      rw [hend, hread, hdecoded]
      exact .stay
    | rejected =>
      obtain ⟨rest, hrest⟩ := hend
      rw [hrest, ← hdecoded 0 rest]
      exact shutdown_quiet (decoded c payloads 0 rest)

theorem onWriteMessage_act (hvalid : c.messageQueue.Valid) (result : Except ErrorKind Unit) :
    c.teardown.Act (c.onWriteMessage result).teardown := by
  cases result with
  | error ec => exact .quiet (handleWriteError_quiet (c.assignOutbound .empty) ec)
  | ok u =>
    exact writeQueued_act (c := { c.assignOutbound .empty with
      completed := c.completed ++ [c.messageOutbound] }) hvalid

/-! ## Completions -/

theorem without_completes (c : Connection) (p : AsyncOp → Bool) :
    c.teardown.Completes (c.without p).teardown :=
  ⟨List.eraseP_sublist.countP_le, List.eraseP_sublist.countP_le, rfl⟩

/-- A handler that delivers nothing and does not fault. -/
theorem step_of_act {p : AsyncOp → Bool} (hfault : c.fault = false)
    (h : (c.without p).teardown.Act c'.teardown) : c.teardown.Step [] false c'.teardown := by
  refine ⟨(c.without p).teardown, without_completes c p, ?_⟩
  rw [Teardown.noting_nil hfault]
  exact h

/-- While the handler of an SSL shutdown is to run, the connection is shutting
down. -/
theorem shuttingDown_of_pending (honce : c.teardown.Once)
    (hany : c.pending.any (· == .sslShutdown) = true) : c.shuttingDown = true := by
  have hopen : 0 < c.teardown.openShutdowns := countP_pos_of_any (fun _ h => h) hany
  exact Teardown.TeardownLemmas.shuttingDown_of_open honce hopen

end TeardownLemmas

open TeardownLemmas WritingLemmas

/-- A step in the strand is a step of `Teardown`. -/
theorem step_teardown {handshake : Message} {e : Event} (honce : c.teardown.Once)
    (hlen : c.inMessageLen < 2 ^ 32) (h : step handshake c e = some c') :
    c.teardown.Step (c.deliveries e) (derefsNull handshake e) c'.teardown := by
  obtain ⟨hfault, hcases⟩ := step_cases h
  have hvalid : c.messageQueue.Valid := honce.valid
  cases hcases with
  | send message =>
    refine ⟨c.teardown, ⟨Nat.le_refl _, Nat.le_refl _, rfl⟩, ?_⟩
    show (c.teardown.noting [] false).Act _
    rw [Teardown.noting_nil hfault]
    exact sendMessage_act hvalid message
  | sslHandshake result =>
    exact ⟨_, without_completes c (· == .sslHandshake),
      .quiet (onSslHandshake_quiet (c := c.without _) hfault handshake result)⟩
  | handshakeSent result =>
    exact step_of_act hfault (.quiet (onIanHandshakeSent_quiet (c.without _) result))
  | handshakeRead result =>
    exact step_of_act hfault (onIanHandshake_act (c := c.without _) hvalid result)
  | read result =>
    exact ⟨_, without_completes c AsyncOp.isRead,
      .quiet (onRead_quiet (c := c.without _) hfault hlen result)⟩
  | wrote result =>
    exact step_of_act hfault (onWriteMessage_act (c := c.without _) hvalid result)
  | shutdownDone result hany =>
    have hshutting := shuttingDown_of_pending honce hany
    exact step_of_act hfault (.quiet (onShutdown_quiet (c := c.without _) hshutting result))

end Connection

end Ian.Cluster
