import Ian.Cluster.Layers
import Ian.Common.Attendance

/-!
# The lifetime of a cluster connection

Only its outstanding operations keep a cluster connection alive. Each step in
the strand is a step of `Attendance` (`step_attendance`); the operation that is
lost is a read, or a part of the handshake, that ends with
`SSL_R_PROTOCOL_IS_SHUTDOWN` on a connection that is not being shut down: the
handlers take this error for the sign of a shutdown of their own and do nothing
(`attended_iff`).
-/

namespace Ian.Cluster

open Ian.Lib Ian.Common DecodingLemmas

/-- An operation of the chain that starts with the SSL handshake. -/
def AsyncOp.isChain : AsyncOp → Bool
  | .write _ _ => false
  | .sslShutdown => false
  | _ => true

namespace Connection

def attendance (c : Connection) : Attendance where
  dropped := c.dropped
  shuttingDown := c.shuttingDown
  chain := c.pending.countP AsyncOp.isChain
  shutdowns := c.pending.countP (· == .sslShutdown)
  fault := c.fault

/-- An operation of the chain ends with an error that its handler ignores, and
the connection has not been told to end. -/
def loses (c : Connection) : Event → Bool
  | .handshakeSent (.error .canceled) => !c.terminated
  | .handshakeRead (.error .canceled) => !c.terminated
  | .read (.error .canceled) => !c.terminated
  | _ => false

variable {c c' : Connection}

namespace LifetimeLemmas

open WritingLemmas

/-! ## Operations -/

theorem start_attendance (c : Connection) {op : AsyncOp} (hop : op.isChain = true) :
    (c.start op).attendance = { c.attendance with chain := c.attendance.chain + 1 } := by
  have hshutdown : (op == .sslShutdown) = false := by cases op <;> first | rfl | cases hop
  simp [start, attendance, List.countP_append, hop, hshutdown]

theorem doWriteMessage_attendance (c : Connection) {m : Message} (hm : m.isEmpty = false) :
    (c.doWriteMessage m).attendance = c.attendance := by
  rw [Message.eq_fromVector hm]
  simp [doWriteMessage, assignOutbound, assignLength, Message.fromVector, start, attendance,
    List.countP_append, AsyncOp.isChain]

theorem writeQueued_attendance (hvalid : c.messageQueue.Valid) :
    c.writeQueued.attendance = c.attendance := by
  unfold writeQueued
  rcases MessageQueue.tryPop_spec hvalid with ⟨hnone, _⟩ | ⟨m, queue, hsome, hm, _, _⟩
  · rw [hnone]
    rfl
  · rw [hsome]
    exact doWriteMessage_attendance { c with messageQueue := queue } hm

theorem abort_ending (c : Connection) :
    ∃ down, c.attendance.Ending down c.abort.attendance ∧ (!down && !c.terminated) = false := by
  unfold abort
  split
  · next hdropped => exact ⟨false, .stay, by simp [terminated, hdropped]⟩
  · exact ⟨true, .drop, rfl⟩

theorem shutdown_ending (hdown : c.downgraded = false) (hopen : c.socketOpen = !c.dropped) :
    ∃ down, c.attendance.Ending down c.shutdown.attendance ∧
      (!down && !c.terminated) = false := by
  unfold shutdown
  dsimp only
  split
  · next hflags => exact ⟨false, .stay, by simp [terminated, hflags]⟩
  · next hflags =>
    have hrunning : c.attendance.terminated = false := Bool.eq_false_iff.mpr hflags
    have hdropped : c.dropped = false := (Bool.or_eq_false_iff.mp hrunning).1
    rw [if_neg (by simp [hdown]), if_neg (by simp [hopen, hdropped])]
    refine ⟨true, ?_, rfl⟩
    have hstart : ({ (start { c with
          shutdownCalls := c.shutdownCalls + 1
          messageQueue := c.messageQueue.clear } .sslShutdown) with shuttingDown := true } :
            Connection).attendance =
        { c.attendance with shuttingDown := true, shutdowns := c.attendance.shutdowns + 1 } := by
      simp [start, attendance, List.countP_append, AsyncOp.isChain]
    rw [hstart]
    exact .shutdown hrunning

theorem handleError_ending (hdown : c.downgraded = false) (hopen : c.socketOpen = !c.dropped)
    (ec : ErrorKind) :
    ∃ down, c.attendance.Ending down (c.handleError ec).attendance ∧
      (!down && !c.terminated) = (ec == .canceled && !c.terminated) := by
  unfold handleError
  split
  · next hdropped => exact ⟨false, .stay, by simp [terminated, hdropped]⟩
  cases ec with
  | reset => exact abort_ending c
  | canceled => exact ⟨false, .stay, rfl⟩
  | other => exact shutdown_ending hdown hopen

/-! ## Completions -/

theorem without_chain {p : AsyncOp → Bool} (hp : ∀ op, p op = true → op.isChain = true)
    (hany : c.pending.any p = true) : 0 < c.attendance.chain ∧
      (c.without p).attendance = { c.attendance with chain := c.attendance.chain - 1 } := by
  have hcount := countP_eraseP_of_imp hp hany
  have hshutdowns := countP_eraseP_of_disjoint (p := p) (q := (· == AsyncOp.sslShutdown))
    (fun op hop => by
      have hchain := hp op hop
      cases op <;> first | rfl | cases hchain) c.pending
  refine ⟨?_, ?_⟩
  · show 0 < c.pending.countP AsyncOp.isChain
    omega
  · simp only [attendance, without, hshutdowns, ← hcount, Nat.add_sub_cancel]

theorem without_messageWrite (c : Connection) :
    (c.without AsyncOp.isMessageWrite).attendance = c.attendance := by
  have hchain := countP_eraseP_of_disjoint (p := AsyncOp.isMessageWrite) (q := AsyncOp.isChain)
    (fun op hop => by cases op <;> first | rfl | cases hop) c.pending
  have hshutdowns := countP_eraseP_of_disjoint (p := AsyncOp.isMessageWrite)
    (q := (· == AsyncOp.sslShutdown)) (fun op hop => by cases op <;> first | rfl | cases hop)
    c.pending
  simp only [attendance, without, hchain, hshutdowns]

theorem without_sslShutdown (hany : c.pending.any (· == .sslShutdown) = true) :
    0 < c.attendance.shutdowns ∧ (c.without (· == .sslShutdown)).attendance =
      { c.attendance with shutdowns := c.attendance.shutdowns - 1 } := by
  have hcount := countP_eraseP_of_imp (q := (· == AsyncOp.sslShutdown)) (fun _ hop => hop) hany
  have hchain := countP_eraseP_of_disjoint (p := (· == AsyncOp.sslShutdown)) (q := AsyncOp.isChain)
    (fun op hop => by rw [eq_of_beq hop]; rfl) c.pending
  refine ⟨?_, ?_⟩
  · show 0 < c.pending.countP (· == .sslShutdown)
    omega
  · simp only [attendance, without, hchain, ← hcount, Nat.add_sub_cancel]

/-- A handler of the chain that starts the next operation of it. -/
theorem step_next {p : AsyncOp → Bool} (hp : ∀ op, p op = true → op.isChain = true)
    (hany : c.pending.any p = true)
    (h : c'.attendance =
      { (c.without p).attendance with chain := (c.without p).attendance.chain + 1 }) :
    c.attendance.Step false c'.attendance := by
  obtain ⟨hpos, hwithout⟩ := without_chain hp hany
  have hsame : c'.attendance = c.attendance := by
    rw [h, hwithout]
    show { c.attendance with chain := c.attendance.chain - 1 + 1 } = c.attendance
    rw [Nat.sub_add_cancel hpos]
  rw [hsame]
  exact .next hpos

/-- A handler of the chain that ends it. -/
theorem step_ending {p : AsyncOp → Bool} (hp : ∀ op, p op = true → op.isChain = true)
    (hany : c.pending.any p = true) {lost : Bool}
    (h : ∃ down, (c.without p).attendance.Ending down c'.attendance ∧
      (!down && !c.terminated) = lost) : c.attendance.Step lost c'.attendance := by
  obtain ⟨hpos, hwithout⟩ := without_chain hp hany
  obtain ⟨down, hending, hlost⟩ := h
  rw [hwithout] at hending
  rw [← hlost]
  exact .ending hpos hending

/-! ## Handlers -/

theorem sendMessage_attendance (hvalid : c.messageQueue.Valid) (m : Message) :
    (c.sendMessage m).attendance = c.attendance := by
  unfold sendMessage sendMessageBody
  split
  · rfl
  next hempty =>
  have hm : m.isEmpty = false := by simpa using hempty
  split
  · rfl
  dsimp only
  split
  · exact doWriteMessage_attendance { c with accepted := c.accepted ++ [m], isWriting := true } hm
  · obtain ⟨queue, hpush, _⟩ := MessageQueue.push_spec hvalid hm
    rw [hpush]
    rfl

theorem sslHandshake_step (handshake : Message) (hany : c.pending.any (· == .sslHandshake) = true)
    (result : Except ErrorKind Unit) :
    c.attendance.Step false
      ((c.without (· == .sslHandshake)).onSslHandshake handshake result).attendance := by
  have hp : ∀ op : AsyncOp, (op == .sslHandshake) = true → op.isChain = true :=
    fun op hop => by rw [eq_of_beq hop]; rfl
  cases result with
  | error ec => exact step_ending hp hany (abort_ending (c.without _))
  | ok u =>
    obtain ⟨impl⟩ := handshake
    cases impl with
    | some payload => exact step_next hp hany (start_attendance _ rfl)
    | none =>
      obtain ⟨hpos, hwithout⟩ := without_chain hp hany
      have hfault : ((c.without (· == .sslHandshake)).onSslHandshake ⟨none⟩ (.ok u)).attendance =
          { (c.without (· == .sslHandshake)).attendance with fault := true } := rfl
      rw [hfault, hwithout]
      exact .fault hpos

theorem handshakeSent_step (hlinked : Linked c)
    (hany : c.pending.any AsyncOp.isHandshakeWrite = true) (result : Except ErrorKind Unit) :
    c.attendance.Step (c.loses (.handshakeSent result))
      ((c.without AsyncOp.isHandshakeWrite).onIanHandshakeSent result).attendance := by
  have hp : ∀ op : AsyncOp, op.isHandshakeWrite = true → op.isChain = true :=
    fun op hop => by cases op <;> first | rfl | cases hop
  cases result with
  | error ec =>
    have hlost : c.loses (.handshakeSent (.error ec)) = (ec == .canceled && !c.terminated) := by
      cases ec <;> rfl
    rw [hlost]
    exact step_ending hp hany (handleError_ending
      (c := { (c.without AsyncOp.isHandshakeWrite).assignOutbound .empty with writeFailed := true })
      hlinked.notDowngraded hlinked.once.socket ec)
  | ok u => exact step_next hp hany (start_attendance _ rfl)

/-- The handshake of the peer, or a part of it, is at hand. -/
theorem handshakeBody_step (hlinked : Linked c)
    (hany : c.pending.any (· == .handshakeRead) = true) (len : Nat) (buffer : List UInt8) :
    c.attendance.Step false ({ c.without (· == .handshakeRead) with
      inMessageLen := len, readBuffer := buffer } : Connection).handshakeBody.attendance := by
  have hp : ∀ op : AsyncOp, (op == .handshakeRead) = true → op.isChain = true :=
    fun op hop => by rw [eq_of_beq hop]; rfl
  unfold handshakeBody
  split
  · exact step_next hp hany (start_attendance _ rfl)
  split
  · exact step_ending hp hany (shutdown_ending (c := { c.without (· == .handshakeRead) with
      inMessageLen := len, readBuffer := buffer }) hlinked.notDowngraded hlinked.once.socket)
  · refine step_next hp hany ?_
    have hqueued := writeQueued_attendance (c := readNext {
      c.without (· == .handshakeRead) with
        inMessageLen := 0
        readBuffer := buffer.drop len
        handshakeDone := true }) hlinked.once.valid
    exact hqueued.trans (start_attendance _ rfl)

theorem handshakeRead_step (hlinked : Linked c)
    (hany : c.pending.any (· == .handshakeRead) = true) (result : Except ErrorKind (List UInt8)) :
    c.attendance.Step (c.loses (.handshakeRead result))
      ((c.without (· == .handshakeRead)).onIanHandshake result).attendance := by
  have hp : ∀ op : AsyncOp, (op == .handshakeRead) = true → op.isChain = true :=
    fun op hop => by rw [eq_of_beq hop]; rfl
  cases result with
  | error ec =>
    have hlost : c.loses (.handshakeRead (.error ec)) = (ec == .canceled && !c.terminated) := by
      cases ec <;> rfl
    rw [hlost]
    exact step_ending hp hany (handleError_ending (c := c.without (· == .handshakeRead))
      hlinked.notDowngraded hlinked.once.socket ec)
  | ok chunk =>
    have hshutdown : ∀ len buffer, c.attendance.Step false
        ({ c.without (· == .handshakeRead) with
          inMessageLen := len, readBuffer := buffer } : Connection).shutdown.attendance :=
      fun len buffer => step_ending hp hany (shutdown_ending
        (c := { c.without (· == .handshakeRead) with inMessageLen := len, readBuffer := buffer })
        hlinked.notDowngraded hlinked.once.socket)
    unfold onIanHandshake
    dsimp only
    split
    · split
      · exact hshutdown _ _
      split
      · exact hshutdown _ _
      · exact handshakeBody_step hlinked hany _ _
    · exact handshakeBody_step hlinked hany _ _

theorem read_step (hlinked : Linked c) (hany : c.pending.any AsyncOp.isRead = true)
    (result : Except ErrorKind (List UInt8)) :
    c.attendance.Step (c.loses (.read result))
      ((c.without AsyncOp.isRead).onRead result).attendance := by
  have hp : ∀ op : AsyncOp, op.isRead = true → op.isChain = true :=
    fun op hop => by cases op <;> first | rfl | cases hop
  cases result with
  | error ec =>
    have hlost : c.loses (.read (.error ec)) = (ec == .canceled && !c.terminated) := by
      cases ec <;> rfl
    rw [hlost]
    exact step_ending hp hany (handleError_ending (c := c.without AsyncOp.isRead)
      hlinked.notDowngraded hlinked.once.socket ec)
  | ok chunk =>
    obtain ⟨payloads, len, rest, hend | hend⟩ := onRead_cases (c.without AsyncOp.isRead) chunk
    · rw [hend]
      exact step_next hp hany
        (start_attendance (decoded (c.without AsyncOp.isRead) payloads len rest) rfl)
    · rw [hend]
      exact step_ending hp hany
        (shutdown_ending (c := decoded (c.without AsyncOp.isRead) payloads len rest)
          hlinked.notDowngraded hlinked.once.socket)

theorem wrote_step (hlinked : Linked c) (result : Except ErrorKind Unit) :
    c.attendance.Step false
      ((c.without AsyncOp.isMessageWrite).onWriteMessage result).attendance := by
  have hwithout := without_messageWrite c
  cases result with
  | error ec =>
    obtain ⟨down, hending, _⟩ := handleError_ending
      (c := { (c.without AsyncOp.isMessageWrite).assignOutbound .empty with writeFailed := true })
      hlinked.notDowngraded hlinked.once.socket ec
    rw [← hwithout]
    exact .aside hending
  | ok u =>
    have hqueued := writeQueued_attendance
      (c := { (c.without AsyncOp.isMessageWrite).assignOutbound .empty with
        completed := c.completed ++ [c.messageOutbound] }) hlinked.once.valid
    have hsame : ((c.without AsyncOp.isMessageWrite).onWriteMessage (.ok u)).attendance =
        c.attendance := hqueued.trans hwithout
    rw [hsame]
    exact .aside .stay

theorem shutdownDone_step (hany : c.pending.any (· == .sslShutdown) = true)
    (result : Except ErrorKind Unit) :
    c.attendance.Step false ((c.without (· == .sslShutdown)).onShutdown result).attendance := by
  obtain ⟨hpos, hwithout⟩ := without_sslShutdown hany
  have hclosed : ((c.without (· == .sslShutdown)).onShutdown result).attendance =
      { (c.without (· == .sslShutdown)).attendance with dropped := true } := by
    unfold onShutdown
    split
    · next hdropped =>
      have hd : (c.without (· == .sslShutdown)).attendance.dropped = true := hdropped
      rw [← hd]
    · rfl
  rw [hclosed, hwithout]
  exact .shutdownDone hpos

end LifetimeLemmas

open LifetimeLemmas WritingLemmas

/-- A step in the strand is a step of `Attendance`. -/
theorem step_attendance {handshake : Message} {e : Event} (hlinked : Linked c)
    (h : step handshake c e = some c') : c.attendance.Step (c.loses e) c'.attendance := by
  cases (step_cases h).2 with
  | send m =>
    have hsame := sendMessage_attendance hlinked.once.valid m
    rw [hsame]
    exact .aside .stay
  | sslHandshake result hany =>
    have hnone : c.loses (.sslHandshake result) = false := by cases result <;> rfl
    rw [hnone]
    exact sslHandshake_step handshake hany result
  | handshakeSent result hany => exact handshakeSent_step hlinked hany result
  | handshakeRead result hany => exact handshakeRead_step hlinked hany result
  | read result hany => exact read_step hlinked hany result
  | wrote result => exact wrote_step hlinked result
  | shutdownDone result hany => exact shutdownDone_step hany result

namespace LifetimeLemmas

/-- What holds throughout a run. -/
def Kept (c : Connection) : Prop := Linked c ∧ c.attendance.Single

theorem step_kept {handshake : Message} {e : Event} (h : Kept c)
    (hstep : step handshake c e = some c') : Kept c' :=
  ⟨step_linked h.1 hstep, (step_attendance h.1 hstep).single h.2⟩

theorem run_kept (safeLink : Bool) : Kept (init.run safeLink) :=
  ⟨run_linked safeLink, Nat.le_refl 1, Nat.le_refl 0⟩

end LifetimeLemmas

end Connection

open Connection in
/-- A read that is cancelled from outside leaves a connection that nothing will
ever wake. -/
theorem forgotten_by_cancellation :
    ∃ c, runEvents (step (.fromVector [9])) (init.run true)
        [.sslHandshake (.ok ()), .handshakeSent (.ok ()), .handshakeRead (.ok [1, 0, 0, 0, 9]),
          .read (.error .canceled)] = some c ∧
      c.dropped = false ∧ c.shuttingDown = false ∧ c.socketOpen = true ∧ c.pending = [] :=
  ⟨_, rfl, rfl, rfl, rfl, rfl⟩

end Ian.Cluster
