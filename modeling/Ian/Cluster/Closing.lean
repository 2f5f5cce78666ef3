import Ian.Cluster.Layers
import Ian.Lib.Progress

/-!
# What is left of a closed cluster connection

Each outstanding operation has a pointer to its connection, so a connection that
has been closed is destroyed when the handlers of all its operations have run.
Most of them end with an error. A few may have completed with success before the
socket was closed, and then their handlers still start new operations; these end
with an error. `closed_connection_ends` puts a bound on all this.
-/

namespace Ian.Cluster

open Ian.Lib Ian.Common DecodingLemmas

namespace Connection

/-- An operation on the link ends with success. -/
def Event.succeeds : Event → Bool
  | .sslHandshake (.ok _) => true
  | .handshakeSent (.ok _) => true
  | .handshakeRead (.ok _) => true
  | .read (.ok _) => true
  | .wrote (.ok _) => true
  | _ => false

def Event.isSend : Event → Bool
  | .send _ => true
  | _ => false

end Connection

/-- The operation ends with an error. -/
def AsyncOp.fails (ec : ErrorKind) : AsyncOp → Connection.Event
  | .sslHandshake => .sslHandshake (.error ec)
  | .handshakeWrite _ => .handshakeSent (.error ec)
  | .handshakeRead => .handshakeRead (.error ec)
  | .read _ => .read (.error ec)
  | .write _ _ => .wrote (.error ec)
  | .sslShutdown => .shutdownDone (.error ec)

namespace Connection

/-- Without a handshake message a connection starts nothing after the SSL
handshake: it waits for that while it is running, or for nothing. -/
structure Unsent (c : Connection) : Prop where
  writing : c.isWriting = true
  waits : c.pending = [] ∨
    c.pending = [.sslHandshake] ∧ c.dropped = false ∧ c.fault = false

/-- What holds throughout a run. -/
structure Sound (handshake : Message) (c : Connection) : Prop where
  linked : Linked c
  assigned : handshake.isEmpty = false → c.fault = false
  unassigned : handshake.isEmpty = true → Unsent c

/-- A connection that has been closed. -/
structure Closed (handshake : Message) (c : Connection) : Prop where
  sound : Sound handshake c
  dropped : c.dropped = true

variable {c c' : Connection}

namespace ClosingLemmas

open WritingLemmas

/-! ## What the handlers start -/

theorem abort_pending (hdropped : c.dropped = true) : c.abort = c := by
  rw [abort, if_pos hdropped]

theorem shutdown_pending (hdropped : c.dropped = true) : c.shutdown.pending = c.pending := by
  unfold shutdown
  dsimp only
  rw [if_pos (by rw [hdropped]; rfl)]

theorem handleError_pending (hdropped : c.dropped = true) (ec : ErrorKind) :
    c.handleError ec = c := by
  unfold handleError
  rw [if_pos hdropped]

/-- The queue of a closed connection is empty. -/
theorem writeQueued_pending (hqueue : c.messageQueue = .init) :
    c.writeQueued.pending = c.pending := by
  unfold writeQueued
  rw [hqueue]
  rfl

theorem start_length (c : Connection) (op : AsyncOp) :
    (c.start op).pending.length = c.pending.length + 1 := List.length_append

theorem onSslHandshake_length (hdropped : c.dropped = true) (handshake : Message)
    (result : Except ErrorKind Unit) :
    (c.onSslHandshake handshake result).pending.length ≤
      c.pending.length + (Event.succeeds (.sslHandshake result)).toNat := by
  cases result with
  | error ec => exact Nat.le_of_eq (congrArg (·.pending.length) (abort_pending hdropped))
  | ok u =>
    obtain ⟨impl⟩ := handshake
    cases impl with
    | none => exact Nat.le_succ _
    | some payload => exact Nat.le_of_eq (start_length _ _)

theorem onIanHandshakeSent_length (hdropped : c.dropped = true) (result : Except ErrorKind Unit) :
    (c.onIanHandshakeSent result).pending.length ≤
      c.pending.length + (Event.succeeds (.handshakeSent result)).toNat := by
  cases result with
  | error ec =>
    have hsame := handleError_pending (c := { c.assignOutbound .empty with writeFailed := true })
      hdropped ec
    exact Nat.le_of_eq (congrArg (·.pending.length) hsame)
  | ok u => exact Nat.le_of_eq (start_length _ _)

theorem handshakeBody_length (hdropped : c.dropped = true) (hqueue : c.messageQueue = .init) :
    c.handshakeBody.pending.length ≤ c.pending.length + 1 := by
  unfold handshakeBody
  split
  · exact Nat.le_of_eq (start_length _ _)
  split
  · rw [shutdown_pending hdropped]
    exact Nat.le_succ _
  · have hqueued := writeQueued_pending (c := readNext { c with
      readBuffer := c.readBuffer.drop c.inMessageLen
      inMessageLen := 0
      handshakeDone := true }) hqueue
    rw [hqueued]
    exact Nat.le_of_eq (start_length _ _)

theorem onIanHandshake_length (hdropped : c.dropped = true) (hqueue : c.messageQueue = .init)
    (result : Except ErrorKind (List UInt8)) :
    (c.onIanHandshake result).pending.length ≤
      c.pending.length + (Event.succeeds (.handshakeRead result)).toNat := by
  cases result with
  | error ec => exact Nat.le_of_eq (congrArg (·.pending.length) (handleError_pending hdropped ec))
  | ok chunk =>
    have hshutdown : ∀ len buffer, ({ c with inMessageLen := len, readBuffer := buffer } :
        Connection).shutdown.pending.length ≤ c.pending.length + 1 := by
      intro len buffer
      rw [shutdown_pending (c := { c with inMessageLen := len, readBuffer := buffer }) hdropped]
      exact Nat.le_succ _
    unfold onIanHandshake
    dsimp only
    split
    · split
      · exact hshutdown _ _
      split
      · exact hshutdown _ _
      · exact handshakeBody_length (c := takeLength _) hdropped hqueue
    · exact handshakeBody_length (c := { c with readBuffer := c.readBuffer ++ chunk })
        hdropped hqueue

theorem onRead_length (hdropped : c.dropped = true) (result : Except ErrorKind (List UInt8)) :
    (c.onRead result).pending.length ≤
      c.pending.length + (Event.succeeds (.read result)).toNat := by
  cases result with
  | error ec => exact Nat.le_of_eq (congrArg (·.pending.length) (handleError_pending hdropped ec))
  | ok chunk =>
    obtain ⟨payloads, len, rest, hend | hend⟩ := onRead_cases c chunk
    · rw [hend]
      exact Nat.le_of_eq (start_length _ _)
    · rw [hend, shutdown_pending (c := decoded c payloads len rest) hdropped]
      exact Nat.le_succ _

theorem onWriteMessage_length (hdropped : c.dropped = true) (hqueue : c.messageQueue = .init)
    (result : Except ErrorKind Unit) :
    (c.onWriteMessage result).pending.length ≤ c.pending.length := by
  cases result with
  | error ec =>
    have hsame := handleError_pending (c := { c.assignOutbound .empty with writeFailed := true })
      hdropped ec
    exact Nat.le_of_eq (congrArg (·.pending.length) hsame)
  | ok u =>
    have hqueued := writeQueued_pending (c := { c.assignOutbound .empty with
      completed := c.completed ++ [c.messageOutbound] }) hqueue
    exact Nat.le_of_eq (congrArg List.length hqueued)

theorem onShutdown_pending (hdropped : c.dropped = true) (result : Except ErrorKind Unit) :
    c.onShutdown result = c := by
  rw [onShutdown, if_pos hdropped]

/-! ## Steps -/

theorem without_length {p : AsyncOp → Bool} (hany : c.pending.any p = true) :
    (c.without p).pending.length + 1 = c.pending.length := by
  obtain ⟨op, hop, hp⟩ := List.any_eq_true.mp hany
  show (c.pending.eraseP p).length + 1 = c.pending.length
  rw [List.length_eraseP_of_mem hop hp, Nat.sub_add_cancel (List.length_pos_of_mem hop)]

/-- An operation ends, and its handler starts another one only if it has ended
with success. -/
theorem step_length {handshake : Message} {e : Event} (hclosed : Closed handshake c)
    (hsend : e.isSend = false) (h : step handshake c e = some c') :
    c'.pending.length + 1 ≤ c.pending.length + e.succeeds.toNat := by
  have hqueue : c.messageQueue = .init := hclosed.sound.linked.once.drained (by
    show (c.dropped || c.shuttingDown) = true
    rw [hclosed.dropped, Bool.true_or])
  have hless : ∀ {p : AsyncOp → Bool} {n n' : Nat}, c.pending.any p = true →
      n' ≤ (c.without p).pending.length + n → n' + 1 ≤ c.pending.length + n := by
    intro p n n' hany hle
    rw [← without_length hany, Nat.add_right_comm]
    exact Nat.succ_le_succ hle
  cases (step_cases h).2 with
  | send message => cases hsend
  | sslHandshake result hany =>
    exact hless hany (onSslHandshake_length (c := c.without _) hclosed.dropped handshake result)
  | handshakeSent result hany =>
    exact hless hany (onIanHandshakeSent_length (c := c.without _) hclosed.dropped result)
  | handshakeRead result hany =>
    exact hless hany (onIanHandshake_length (c := c.without _) hclosed.dropped hqueue result)
  | read result hany => exact hless hany (onRead_length (c := c.without _) hclosed.dropped result)
  | wrote result hany =>
    have hle := onWriteMessage_length (c := c.without AsyncOp.isMessageWrite) hclosed.dropped
      hqueue result
    exact hless hany (Nat.le_trans hle (Nat.le_add_right _ _))
  | shutdownDone result hany =>
    have hsame := onShutdown_pending (c := c.without (· == .sslShutdown)) hclosed.dropped result
    exact hless hany (Nat.le_of_eq (congrArg (·.pending.length) hsame))

/-- While it is writing, a connection only queues what it is asked to send. -/
theorem sendMessage_writing (hwriting : c.isWriting = true) (m : Message) :
    (c.sendMessage m).pending = c.pending ∧ (c.sendMessage m).isWriting = true ∧
      (c.sendMessage m).dropped = c.dropped := by
  unfold sendMessage sendMessageBody
  split
  · exact ⟨rfl, hwriting, rfl⟩
  split
  · exact ⟨rfl, hwriting, rfl⟩
  dsimp only
  rw [if_neg (by simp [hwriting])]
  split
  · exact ⟨rfl, hwriting, rfl⟩
  · exact ⟨rfl, hwriting, rfl⟩

/-- Only the end of the SSL handshake can follow, and it leaves nothing behind. -/
theorem step_unsent {handshake : Message} {e : Event} (hhandshake : handshake.isEmpty = true)
    (hlinked : Linked c) (hunsent : Unsent c) (h : step handshake c e = some c') : Unsent c' := by
  have hfault : c'.fault = derefsNull handshake e := step_fault hlinked h
  have honly : ∀ {p : AsyncOp → Bool}, c.pending.any p = true →
      p .sslHandshake = true ∧ c.pending = [.sslHandshake] := by
    intro p hany
    rcases hunsent.waits with hnone | ⟨hone, _⟩
    · simp [hnone] at hany
    · simp only [hone, List.any_cons, List.any_nil, Bool.or_false] at hany
      exact ⟨hany, hone⟩
  cases (step_cases h).2 with
  | send m =>
    obtain ⟨hpending, hwriting, hdropped⟩ := sendMessage_writing hunsent.writing m
    refine ⟨hwriting, ?_⟩
    rw [hpending, hdropped, hfault]
    exact hunsent.waits.imp_right fun hone => ⟨hone.1, hone.2.1, rfl⟩
  | sslHandshake result hany =>
    have hnone : (c.without (· == .sslHandshake)).pending = [] := by
      show c.pending.eraseP _ = []
      rw [(honly hany).2]
      rfl
    cases result with
    | error ec =>
      show Unsent (c.without (· == .sslHandshake)).abort
      unfold abort
      split
      · exact ⟨hunsent.writing, .inl hnone⟩
      · exact ⟨hunsent.writing, .inl hnone⟩
    | ok u =>
      obtain ⟨impl⟩ := handshake
      cases impl with
      | none => exact ⟨hunsent.writing, .inl hnone⟩
      | some payload => cases hhandshake
  | handshakeSent result hany => cases (honly hany).1
  | handshakeRead result hany => cases (honly hany).1
  | read result hany => cases (honly hany).1
  | wrote result hany => cases (honly hany).1
  | shutdownDone result hany => cases (honly hany).1

theorem step_sound {handshake : Message} {e : Event} (hsound : Sound handshake c)
    (h : step handshake c e = some c') : Sound handshake c' where
  linked := step_linked hsound.linked h
  assigned hhandshake := by
    rw [step_fault hsound.linked h]
    unfold derefsNull
    split
    · exact hhandshake
    · rfl
  unassigned hhandshake :=
    step_unsent hhandshake hsound.linked (hsound.unassigned hhandshake) h

theorem run_sound (handshake : Message) (safeLink : Bool) : Sound handshake (init.run safeLink) :=
  ⟨run_linked safeLink, fun _ => rfl, fun _ => ⟨rfl, .inr ⟨rfl, rfl, rfl⟩⟩⟩

/-- After a fault nothing is outstanding. -/
theorem fault_of_pending {handshake : Message} (hsound : Sound handshake c)
    (hpending : c.pending ≠ []) : c.fault = false := by
  cases hhandshake : handshake.isEmpty with
  | false => exact hsound.assigned hhandshake
  | true =>
    obtain ⟨_, _, hfault⟩ := (hsound.unassigned hhandshake).waits.resolve_left hpending
    exact hfault

/-- Nothing is outstanding of a closed connection without a handshake message. -/
theorem assigned_of_closed {handshake : Message} (hclosed : Closed handshake c)
    (hpending : c.pending ≠ []) : handshake.isEmpty = false := by
  by_contra hhandshake
  have hunsent := hclosed.sound.unassigned (Bool.not_eq_false _ |>.mp hhandshake)
  obtain ⟨_, hdropped, _⟩ := hunsent.waits.resolve_left hpending
  cases hdropped.symm.trans hclosed.dropped

theorem step_closed {handshake : Message} {e : Event} (hclosed : Closed handshake c)
    (h : step handshake c e = some c') : Closed handshake c' where
  sound := step_sound hclosed.sound h
  dropped := ((step_teardown hclosed.sound.linked.once hclosed.sound.linked.len h).final
    hclosed.sound.linked.once).2.dropped hclosed.dropped

/-- Each outstanding operation can end with an error. -/
theorem fails_step {handshake : Message} (hsound : Sound handshake c) {op : AsyncOp}
    (hop : op ∈ c.pending) (ec : ErrorKind) : ∃ c', step handshake c (op.fails ec) = some c' := by
  have hcomplete : ∀ {p : AsyncOp → Bool} {f : Connection → Connection}, p op = true →
      ∃ c', (c.complete p).map f = some c' := by
    intro p f hp
    have hany : c.pending.any p = true := List.any_eq_true.mpr ⟨op, hop, hp⟩
    rw [complete, if_pos hany]
    exact ⟨_, rfl⟩
  have hfault := fault_of_pending hsound (List.ne_nil_of_mem hop)
  unfold step
  rw [if_neg (by rw [hfault]; exact Bool.false_ne_true)]
  cases op with
  | sslHandshake => exact hcomplete rfl
  | handshakeWrite data => exact hcomplete rfl
  | handshakeRead => exact hcomplete rfl
  | read layer => exact hcomplete (by cases layer <;> rfl)
  | write layer data => exact hcomplete rfl
  | sslShutdown => exact hcomplete rfl

theorem closing_windsDown (handshake : Message) :
    WindsDown (rationed (step handshake) Event.succeeds) (fun _ e => Event.isSend e = false)
      (fun s => Closed handshake s.1) (fun s => s.1.pending = [])
      (fun s : Connection × Nat => s.1.pending.length + 1 * s.2) := by
  have hkeeps : ∀ (c : Connection) (e : Event) (c' : Connection), Closed handshake c →
      e.isSend = false → step handshake c e = some c' →
        Closed handshake c' ∧ c'.pending.length + 1 ≤ c.pending.length + 1 * e.succeeds.toNat := by
    intro c e c' hclosed hsend h
    rw [Nat.one_mul]
    exact ⟨step_closed hclosed h, step_length hclosed hsend h⟩
  have hgoesOn : ∀ c : Connection, Closed handshake c → ¬c.pending = [] →
      ∃ (e : Event) (c' : Connection),
        e.isSend = false ∧ e.succeeds = false ∧ step handshake c e = some c' := by
    intro c hclosed hpending
    obtain ⟨op, ops, hops⟩ := List.exists_cons_of_ne_nil hpending
    obtain ⟨c', hstep⟩ := fails_step hclosed.sound (hops ▸ List.mem_cons_self) .canceled
    refine ⟨op.fails .canceled, c', ?_, ?_, hstep⟩
    · cases op <;> rfl
    · cases op <;> rfl
  exact WindsDown.rationed (C := fun _ e => Event.isSend e = false) 1 hkeeps hgoesOn

end ClosingLemmas

end Connection

open Connection ClosingLemmas in
/-- When a connection has been closed and no more than `k` of its operations
complete with success yet, each run of its handlers ends, after at most one handler
for each operation that is outstanding and `k` more, and then none is. This holds
of `on_ssl_handshake` as it stands too, whose message is null. -/
theorem closed_connection_ends (handshake : Message) (safeLink : Bool) (es : List Event)
    (c : Connection) (k : Nat)
    (h : runEvents (step handshake) (init.run safeLink) es = some c) (hdropped : c.dropped = true) :
    EndsWithin (rationed (step handshake) Event.succeeds) (fun _ e => e.isSend = false)
      (fun s => s.1.pending = []) (c, k) (c.pending.length + k) := by
  have hsound : Sound handshake c :=
    run_invariant (fun _ _ _ => step_sound) (run_sound handshake safeLink) h
  have hends := (closing_windsDown handshake).endsWithin (s := (c, k)) ⟨hsound, hdropped⟩
  rw [Nat.one_mul] at hends
  exact hends

/-- The peer resets a connection that has two operations outstanding; the write
completes with success all the same. -/
def resetRun : List Connection.Event :=
  [.sslHandshake (.ok ()), .handshakeSent (.ok ()), .handshakeRead (.ok [1, 0, 0, 0, 9]),
    .send (.fromVector [1]), .send (.fromVector [2]), .read (.error .reset)]

open Connection in
theorem closed_connection_ends_reset :
    ∃ c, runEvents (step (.fromVector [9])) (init.run true) resetRun = some c ∧
      c.pending = [.write .ssl [1, 0, 0, 0, 1]] ∧
      EndsWithin (rationed (step (.fromVector [9])) Event.succeeds) (fun _ e => e.isSend = false)
        (fun s => s.1.pending = []) (c, 1) 2 :=
  ⟨_, rfl, rfl, closed_connection_ends (.fromVector [9]) true resetRun _ 1 rfl rfl⟩

end Ian.Cluster
