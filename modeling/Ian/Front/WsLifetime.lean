import Ian.Common.Attendance
import Ian.Front.RateLimit

/-!
# The lifetime of a websocket connection

The websocket connection keeps itself going as the cluster connection does,
with a chain that leads from the SSL handshake over the HTTP request and the
websocket handshake to the reads. Each step in its strand is a step of
`Attendance` (`step_attendance`).
-/

namespace Ian.Front

open Ian.Lib Ian.Common

namespace WsConnection

def attendance (c : WsConnection) : Attendance where
  dropped := c.dropped
  shuttingDown := c.shuttingDown
  chain := c.pending.countP WsOp.isChain
  shutdowns := c.pending.countP (· == .sslShutdown)
  fault := c.fault

/-- An operation of the chain ends with an error that its handler ignores, and
the connection has not been told to end. -/
def loses (c : WsConnection) : WsEvent → Bool
  | .requestRead (.error .canceled) _ => !c.terminated
  | .read (.error .canceled) => !c.terminated
  | _ => false

variable {c c' : WsConnection} {settings : Settings}

namespace WsLifetimeLemmas

open WsWritingLemmas WsTeardownLemmas

/-! ## Operations -/

theorem start_attendance (c : WsConnection) {op : WsOp} (hop : op.isChain = true) :
    (c.start op).attendance = { c.attendance with chain := c.attendance.chain + 1 } := by
  have hshutdown : (op == .sslShutdown) = false := by cases op <;> first | rfl | cases hop
  simp [start, attendance, List.countP_append, hop, hshutdown]

theorem doWriteMessage_attendance (c : WsConnection) {m : Message} (hm : m.isEmpty = false) :
    (c.doWriteMessage m).attendance = c.attendance := by
  rw [Message.eq_fromVector hm]
  simp [doWriteMessage, assignOutbound, Message.fromVector, start, attendance,
    List.countP_append, WsOp.isChain]

theorem writeQueued_attendance (hvalid : c.messageQueue.Valid) :
    c.writeQueued.attendance = c.attendance := by
  unfold writeQueued
  rcases MessageQueue.tryPop_spec hvalid with ⟨hnone, _⟩ | ⟨m, queue, hsome, hm, _, _⟩
  · rw [hnone]
    rfl
  · rw [hsome]
    exact doWriteMessage_attendance { c with messageQueue := queue } hm

theorem sendMessage_attendance (hvalid : c.messageQueue.Valid) (m : Message) :
    (c.sendMessage m).attendance = c.attendance := by
  unfold sendMessage sendMessageBody
  split
  · rfl
  next hempty =>
  have hm : m.isEmpty = false := by simpa using hempty
  split
  · rfl
  dsimp only
  split
  · exact doWriteMessage_attendance { c with accepted := c.accepted ++ [m], isWriting := true } hm
  · obtain ⟨queue, hpush, _⟩ := MessageQueue.push_spec hvalid hm
    rw [hpush]
    rfl

/-- How a handler ends the chain: it brings the connection down, unless it is
down already. -/
def Ends (c c' : WsConnection) (lost : Bool) : Prop :=
  ∃ down, c.attendance.Ending down c'.attendance ∧ (!down && !c.terminated) = lost

theorem abort_ends (c : WsConnection) : Ends c c.abort false := by
  unfold abort
  split
  · next hdropped => exact ⟨false, .stay, by simp [terminated, hdropped]⟩
  · exact ⟨true, .drop, rfl⟩

theorem shutdown_ends (hopen : c.socketOpen = !c.dropped) : Ends c c.shutdown false := by
  unfold shutdown
  split
  · next hflags => exact ⟨false, .stay, by simp [terminated, hflags]⟩
  · next hflags =>
    have hrunning : c.attendance.terminated = false := Bool.eq_false_iff.mpr hflags
    have hdropped : c.dropped = false := (Bool.or_eq_false_iff.mp hrunning).1
    dsimp only
    rw [if_neg (by simp [cancelAll, hopen, hdropped])]
    refine ⟨true, ?_, rfl⟩
    have hstart : ({ c.cancelAll.start .sslShutdown with shuttingDown := true } :
          WsConnection).attendance =
        { c.attendance with shuttingDown := true, shutdowns := c.attendance.shutdowns + 1 } := by
      simp [start, cancelAll, attendance, List.countP_append, WsOp.isChain]
    rw [hstart]
    exact .shutdown hrunning

theorem handleError_ends (hopen : c.socketOpen = !c.dropped) (ec : ErrorKind) :
    Ends c (c.handleError ec) (ec == .canceled && !c.terminated) := by
  unfold handleError
  split
  · next hdropped => exact ⟨false, .stay, by simp [terminated, hdropped]⟩
  cases ec with
  | reset => exact abort_ends c
  | canceled => exact ⟨false, .stay, rfl⟩
  | other => exact shutdown_ends hopen

/-! ## Completions -/

theorem without_chain {p : WsOp → Bool} (hp : ∀ op, p op = true → op.isChain = true)
    (hany : c.pending.any p = true) : 0 < c.attendance.chain ∧
      (c.without p).attendance = { c.attendance with chain := c.attendance.chain - 1 } := by
  have hcount := countP_eraseP_of_imp hp hany
  have hshutdowns := countP_eraseP_of_disjoint (p := p) (q := (· == WsOp.sslShutdown))
    (fun op hop => by
      have hchain := hp op hop
      cases op <;> first | rfl | cases hchain) c.pending
  refine ⟨?_, ?_⟩
  · show 0 < c.pending.countP WsOp.isChain
    omega
  · simp only [attendance, without, hshutdowns, ← hcount, Nat.add_sub_cancel]

theorem without_write (c : WsConnection) : (c.without WsOp.isWrite).attendance = c.attendance := by
  have hchain := countP_eraseP_of_disjoint (p := WsOp.isWrite) (q := WsOp.isChain)
    (fun op hop => by cases op <;> first | rfl | cases hop) c.pending
  have hshutdowns := countP_eraseP_of_disjoint (p := WsOp.isWrite) (q := (· == WsOp.sslShutdown))
    (fun op hop => by cases op <;> first | rfl | cases hop) c.pending
  simp only [attendance, without, hchain, hshutdowns]

theorem without_sslShutdown (hany : c.pending.any (· == .sslShutdown) = true) :
    0 < c.attendance.shutdowns ∧ (c.without (· == .sslShutdown)).attendance =
      { c.attendance with shutdowns := c.attendance.shutdowns - 1 } := by
  have hcount := countP_eraseP_of_imp (q := (· == WsOp.sslShutdown)) (fun _ hop => hop) hany
  have hchain := countP_eraseP_of_disjoint (p := (· == WsOp.sslShutdown)) (q := WsOp.isChain)
    (fun op hop => by rw [eq_of_beq hop]; rfl) c.pending
  refine ⟨?_, ?_⟩
  · show 0 < c.pending.countP (· == .sslShutdown)
    omega
  · simp only [attendance, without, hchain, ← hcount, Nat.add_sub_cancel]

/-- A handler of the chain that starts the next operation of it. -/
theorem step_next {p : WsOp → Bool} (hp : ∀ op, p op = true → op.isChain = true)
    (hany : c.pending.any p = true)
    (h : c'.attendance =
      { (c.without p).attendance with chain := (c.without p).attendance.chain + 1 }) :
    c.attendance.Step false c'.attendance := by
  obtain ⟨hpos, hwithout⟩ := without_chain hp hany
  have hsame : c'.attendance = c.attendance := by
    rw [h, hwithout]
    show { c.attendance with chain := c.attendance.chain - 1 + 1 } = c.attendance
    rw [Nat.sub_add_cancel hpos]
  rw [hsame]
  exact .next hpos

/-- A handler of the chain that ends it. -/
theorem step_ending {p : WsOp → Bool} (hp : ∀ op, p op = true → op.isChain = true)
    (hany : c.pending.any p = true) {d : WsConnection}
    (hd : d.attendance = (c.without p).attendance) {lost : Bool} (h : Ends d c' lost) :
    c.attendance.Step lost c'.attendance := by
  obtain ⟨hpos, hwithout⟩ := without_chain hp hany
  obtain ⟨down, hending, hlost⟩ := h
  have hflags : d.terminated = c.terminated := congrArg Attendance.terminated hd
  rw [hd, hwithout] at hending
  rw [← hlost, hflags]
  exact .ending hpos hending

/-! ## Handlers -/

theorem chain_of_beq {o : WsOp} (ho : o.isChain = true) (op : WsOp) (hop : (op == o) = true) :
    op.isChain = true := by
  rw [eq_of_beq hop]
  exact ho

theorem sslHandshake_step (hany : c.pending.any (· == .sslHandshake) = true)
    (result : Except ErrorKind Unit) :
    c.attendance.Step false
      ((c.without (· == .sslHandshake)).onSslHandshake result).attendance := by
  cases result with
  | error ec =>
    exact step_ending (chain_of_beq (o := .sslHandshake) rfl) hany rfl (abort_ends (c.without _))
  | ok u => exact step_next (chain_of_beq (o := .sslHandshake) rfl) hany (start_attendance _ rfl)

/-- A request that has been read leaves the buffer empty. -/
theorem onReadRequest_ok (settings : Settings) (c : WsConnection) (request : Request)
    (active : Int) : c.onReadRequest settings (.ok request) active =
      if active > settings.connectionLimitSoft then
        { c with readBuffer := [] }.respond ⟨503, "Overloaded"⟩
      else if request.isUpgrade then { c with readBuffer := [] }.start .wsHandshake
      else { c with readBuffer := [] }.respond ⟨501, "Not implemented"⟩ := by
  have hbuffer : (if 0 < (c.readBuffer ++ request.leftover).length then
        { c with readBuffer := [] }
      else { c with readBuffer := c.readBuffer ++ request.leftover }) =
      ({ c with readBuffer := [] } : WsConnection) := by
    split
    · rfl
    · next hempty => rw [List.length_eq_zero_iff.mp (Nat.eq_zero_of_not_pos hempty)]
  rw [← hbuffer]
  rfl

theorem requestRead_step (honce : c.teardown.Once)
    (hany : c.pending.any (· == .requestRead) = true) (result : Except ErrorKind Request)
    (active : Int) :
    c.attendance.Step (c.loses (.requestRead result active))
      ((c.without (· == .requestRead)).onReadRequest settings result active).attendance := by
  cases result with
  | error ec =>
    have hlost : c.loses (.requestRead (.error ec) active) =
        (ec == .canceled && !(c.without (· == .requestRead)).terminated) := by
      cases ec <;> rfl
    rw [hlost]
    exact step_ending (chain_of_beq (o := .requestRead) rfl) hany rfl
      (handleError_ends (c := c.without (· == .requestRead)) honce.socket ec)
  | ok request =>
    have hrespond : ∀ response : Response, c.attendance.Step false
        (respond { c.without (· == .requestRead) with readBuffer := [] } response).attendance :=
      fun response => step_ending (chain_of_beq (o := .requestRead) rfl) hany
        (d := { c.without (· == .requestRead) with
          readBuffer := []
          responses := c.responses ++ [response] }) rfl (shutdown_ends honce.socket)
    rw [onReadRequest_ok]
    split
    · exact hrespond _
    split
    · exact step_next (chain_of_beq (o := .requestRead) rfl) hany (start_attendance _ rfl)
    · exact hrespond _

theorem wsHandshake_step (honce : c.teardown.Once)
    (hany : c.pending.any (· == .wsHandshake) = true) (result : Except ErrorKind Unit) :
    c.attendance.Step false
      ((c.without (· == .wsHandshake)).onWsHandshake settings result).attendance := by
  unfold onWsHandshake
  split
  · next hdropped =>
    have hdropped' : c.dropped = true := hdropped
    exact step_ending (chain_of_beq (o := .wsHandshake) rfl) hany rfl ⟨false, .stay, by
      simp [terminated, without, hdropped']⟩
  cases result with
  | error ec =>
    exact step_ending (chain_of_beq (o := .wsHandshake) rfl) hany rfl
      (shutdown_ends (c := c.without (· == .wsHandshake)) honce.socket)
  | ok u => exact step_next (chain_of_beq (o := .wsHandshake) rfl) hany (start_attendance _ rfl)

theorem limited_attendance (settings : Settings) (c : WsConnection) :
    (c.limited settings).attendance = c.attendance := by
  unfold limited
  split <;> rfl

theorem takeMessage_attendance (settings : Settings) (c : WsConnection) (readlen : Nat) :
    (c.takeMessage settings readlen).attendance =
      { c.attendance with chain := c.attendance.chain + 1 } := by
  have hread : (start { c with readBuffer := c.readBuffer.drop readlen } .read).attendance =
      { c.attendance with chain := c.attendance.chain + 1 } := start_attendance _ rfl
  unfold takeMessage
  dsimp only
  split <;> exact hread

theorem read_step (honce : c.teardown.Once) (hany : c.pending.any (· == .read) = true)
    (result : Except ErrorKind Inbound) :
    c.attendance.Step (c.loses (.read result))
      ((c.without (· == .read)).onRead settings result).attendance := by
  cases result with
  | error ec =>
    have hlost : c.loses (.read (.error ec)) =
        (ec == .canceled && !(c.without (· == .read)).terminated) := by
      cases ec <;> rfl
    rw [hlost]
    exact step_ending (chain_of_beq (o := .read) rfl) hany rfl
      (handleError_ends (c := c.without (· == .read)) honce.socket ec)
  | ok inbound =>
    have hlimited := limited_attendance settings ((c.without (· == .read)).counted inbound)
    rw [onRead_ok]
    split
    · exact step_ending (chain_of_beq (o := .read) rfl) hany
        (d := (c.without (· == .read)).counted inbound) rfl (abort_ends _)
    split
    · refine step_ending (chain_of_beq (o := .read) rfl) hany hlimited (shutdown_ends ?_)
      unfold limited
      split <;> exact honce.socket
    · refine step_next (chain_of_beq (o := .read) rfl) hany ?_
      rw [takeMessage_attendance, hlimited]
      rfl

theorem wrote_step (honce : c.teardown.Once) (result : Except ErrorKind Unit) :
    c.attendance.Step false ((c.without WsOp.isWrite).onWriteMessage result).attendance := by
  have hwithout := without_write c
  cases result with
  | error ec =>
    obtain ⟨down, hending, _⟩ := handleError_ends
      (c := { (c.without WsOp.isWrite).assignOutbound .empty with writeFailed := true })
      honce.socket ec
    rw [← hwithout]
    exact .aside hending
  | ok u =>
    have hqueued := writeQueued_attendance
      (c := { (c.without WsOp.isWrite).assignOutbound .empty with
        completed := c.completed ++ [c.messageOutbound] }) honce.valid
    have hsame : ((c.without WsOp.isWrite).onWriteMessage (.ok u)).attendance = c.attendance :=
      hqueued.trans hwithout
    rw [hsame]
    exact .aside .stay

theorem shutdownDone_step (hany : c.pending.any (· == .sslShutdown) = true)
    (result : Except ErrorKind Unit) :
    c.attendance.Step false ((c.without (· == .sslShutdown)).onShutdown result).attendance := by
  obtain ⟨hpos, hwithout⟩ := without_sslShutdown hany
  have hclosed : ((c.without (· == .sslShutdown)).onShutdown result).attendance =
      { (c.without (· == .sslShutdown)).attendance with dropped := true } := by
    unfold onShutdown
    split
    · next hdropped =>
      have hd : (c.without (· == .sslShutdown)).attendance.dropped = true := hdropped
      rw [← hd]
    · rfl
  rw [hclosed, hwithout]
  exact .shutdownDone hpos

theorem setTimer_attendance (c : WsConnection) (t : Timer Unit) (id : TimerId) :
    (c.setTimer t id).attendance = c.attendance := by
  cases id <;> rfl

theorem timeout_step (id : TimerId) (t : Timer Unit) (state : WaitState) :
    c.attendance.Step false ((c.setTimer t id).onTimeout state).attendance := by
  rw [← setTimer_attendance c t id]
  unfold onTimeout
  split
  · exact .aside .stay
  · obtain ⟨down, hending, _⟩ := abort_ends (c.setTimer t id)
    exact .aside hending

end WsLifetimeLemmas

open WsLifetimeLemmas WsWritingLemmas

/-- A step in the strand is a step of `Attendance`. -/
theorem step_attendance {e : WsEvent} (honce : c.teardown.Once)
    (h : step settings c e = some c') : c.attendance.Step (c.loses e) c'.attendance := by
  cases (step_cases h).2 with
  | send m =>
    rw [sendMessage_attendance honce.valid]
    exact .aside .stay
  | sslHandshake result hany => exact sslHandshake_step hany result
  | requestRead result active hany => exact requestRead_step honce hany result active
  | wsHandshake result hany => exact wsHandshake_step honce hany result
  | read result hany => exact read_step honce hany result
  | wrote result => exact wrote_step honce result
  | shutdownDone result hany => exact shutdownDone_step hany result
  | tick duration => exact .aside .stay
  | expire id t =>
    rw [setTimer_attendance]
    exact .aside .stay
  | timeout id i w t => exact timeout_step id t w.state

namespace WsLifetimeLemmas

/-- What holds throughout a run. -/
def Kept (c : WsConnection) : Prop := c.teardown.Once ∧ c.attendance.Single

theorem step_kept {e : WsEvent} (h : Kept c) (hstep : step settings c e = some c') : Kept c' :=
  ⟨step_once h.1 hstep, (step_attendance h.1 hstep).single h.2⟩

theorem run_kept (settings : Settings) (now : Int) : Kept ((init now).run settings) :=
  ⟨run_once settings now, Nat.le_refl 1, Nat.le_refl 0⟩

end WsLifetimeLemmas

end WsConnection

end Ian.Front
