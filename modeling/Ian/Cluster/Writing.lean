import Ian.Cluster.Decoding

/-!
# The outbound side of the cluster connection

`outbound` forgets everything of a cluster connection but its outbound side.
Each step in the strand of a running connection is a step of `Outbound`
(`step_outbound`), or stops the connection: a stopped connection is dropped,
shutting down, or has failed to write, and stays so.

Main result:
  * `run_outbound`: the outbound side of a connection that has run and has not
    stopped is ordered.
-/

namespace Ian.Cluster

open Ian.Lib Ian.Common DecodingLemmas

/-- An outstanding operation of the handshake that is not a write. -/
def AsyncOp.isHandshakeWait : AsyncOp → Bool
  | .sslHandshake => true
  | .handshakeRead => true
  | _ => false

namespace Connection

/-- The outbound side. -/
def outbound (c : Connection) : Outbound where
  isWriting := c.isWriting
  queue := c.messageQueue
  outbound := c.messageOutbound
  messageWrites := c.pending.countP AsyncOp.isMessageWrite
  handshakeWrites := c.pending.countP AsyncOp.isHandshakeWrite
  handshakeWaits := c.pending.countP AsyncOp.isHandshakeWait
  ready := c.handshakeDone
  accepted := c.accepted
  completed := c.completed
  overwritten := c.overwritten
  fault := c.fault

/-- The connection when the handler of an operation is run. -/
def without (c : Connection) (p : AsyncOp → Bool) : Connection :=
  { c with pending := c.pending.eraseP p }

/-- What a step in the strand is; `handshake` is the payload of the IAN handshake. -/
inductive StepCases (handshake : Message) (c : Connection) : Event → Connection → Prop where
  | send (message : Message) : StepCases handshake c (.send message) (c.sendMessage message)
  | sslHandshake (result : Except ErrorKind Unit)
    (hany : c.pending.any (· == .sslHandshake) = true) :
    StepCases handshake c (.sslHandshake result)
      ((c.without (· == .sslHandshake)).onSslHandshake handshake result)
  | handshakeSent (result : Except ErrorKind Unit)
    (hany : c.pending.any AsyncOp.isHandshakeWrite = true) :
    StepCases handshake c (.handshakeSent result)
      ((c.without AsyncOp.isHandshakeWrite).onIanHandshakeSent result)
  | handshakeRead (result : Except ErrorKind (List UInt8))
    (hany : c.pending.any (· == .handshakeRead) = true) :
    StepCases handshake c (.handshakeRead result)
      ((c.without (· == .handshakeRead)).onIanHandshake result)
  | read (result : Except ErrorKind (List UInt8)) (hany : c.pending.any AsyncOp.isRead = true) :
    StepCases handshake c (.read result) ((c.without AsyncOp.isRead).onRead result)
  | wrote (result : Except ErrorKind Unit) (hany : c.pending.any AsyncOp.isMessageWrite = true) :
    StepCases handshake c (.wrote result)
      ((c.without AsyncOp.isMessageWrite).onWriteMessage result)
  | shutdownDone (result : Except ErrorKind Unit)
    (hany : c.pending.any (· == .sslShutdown) = true) :
    StepCases handshake c (.shutdownDone result)
      ((c.without (· == .sslShutdown)).onShutdown result)

/-- The connection is dropped, shutting down, or has failed to write. -/
def stopped (c : Connection) : Bool := c.dropped || c.shuttingDown || c.writeFailed

/-- A connection that has not been closed has an open socket. -/
def Closable (c : Connection) : Prop := c.dropped = false → c.socketOpen = true

/-- Stopping is for good, and so is closing. -/
def Keeps (c c' : Connection) : Prop :=
  (c.stopped = true → c'.stopped = true) ∧ (c.Closable → c'.Closable)

variable {c c' c'' : Connection}

theorem Keeps.refl (c : Connection) : Keeps c c := ⟨id, id⟩

theorem Keeps.trans (h : Keeps c c') (h' : Keeps c' c'') : Keeps c c'' :=
  ⟨fun hs => h'.1 (h.1 hs), fun hc => h'.2 (h.2 hc)⟩

theorem Keeps.of_stopped (hs : c'.stopped = true) (hc : c.Closable → c'.Closable) : Keeps c c' :=
  ⟨fun _ => hs, hc⟩

namespace WritingLemmas

/-! ## Stopping -/

theorem stopped_of_dropped (h : c.dropped = true) : c.stopped = true := by
  unfold stopped
  rw [h]
  rfl

/-- A connection that has not stopped is neither dropped nor shutting down. -/
theorem flags_of_running (h : c.stopped = false) : (c.dropped || c.shuttingDown) = false :=
  (Bool.or_eq_false_iff.mp h).1

theorem close_stopped (c : Connection) : c.close.stopped = true := stopped_of_dropped rfl

theorem abort_stopped (c : Connection) : c.abort.stopped = true := by
  unfold abort
  split
  · exact stopped_of_dropped ‹_›
  · exact close_stopped _

theorem abort_keeps (c : Connection) : Keeps c c.abort := by
  refine Keeps.of_stopped (abort_stopped c) ?_
  unfold abort
  split
  · exact id
  · exact fun _ => nofun

/-- A call of `shutdown` stops a connection, except that it leaves alone one
whose socket is not open. -/
theorem shutdown_stopped (hopen : c.Closable) : c.shutdown.stopped = true := by
  unfold shutdown
  dsimp only
  split
  · next hflags =>
    unfold stopped
    dsimp only
    rw [hflags]
    rfl
  split
  · exact abort_stopped _
  · next hflags _ =>
    have hdropped : c.dropped = false := by
      cases hd : c.dropped with
      | false => rfl
      | true => simp [hd] at hflags
    rw [if_neg (by simp [hopen hdropped])]
    simp [stopped]

theorem shutdown_keeps (c : Connection) : Keeps c c.shutdown := by
  unfold shutdown
  dsimp only
  split
  · exact Keeps.refl c
  split
  · exact abort_keeps { c with shutdownCalls := c.shutdownCalls + 1 }
  split
  · exact ⟨id, id⟩
  · exact ⟨fun _ => by simp [stopped], id⟩

theorem handleError_keeps (c : Connection) (ec : ErrorKind) : Keeps c (c.handleError ec) := by
  unfold handleError
  split
  · exact Keeps.refl c
  · cases ec with
    | reset => exact abort_keeps c
    | canceled => exact Keeps.refl c
    | other => exact shutdown_keeps c

theorem handleWriteError_keeps (c : Connection) (ec : ErrorKind) :
    Keeps c (c.handleWriteError ec) := by
  have hfailed : Keeps c { c with writeFailed := true } := ⟨fun _ => by simp [stopped], id⟩
  exact hfailed.trans (handleError_keeps _ ec)

theorem handleWriteError_stopped (c : Connection) (ec : ErrorKind) :
    (c.handleWriteError ec).stopped = true :=
  (handleError_keeps { c with writeFailed := true } ec).1 (by simp [stopped])

theorem doWriteMessage_keeps (c : Connection) (m : Message) : Keeps c (c.doWriteMessage m) := by
  unfold doWriteMessage
  dsimp only
  split <;> exact ⟨id, id⟩

theorem sendMessage_keeps (c : Connection) (m : Message) : Keeps c (c.sendMessage m) := by
  unfold sendMessage sendMessageBody
  dsimp only
  split
  · exact Keeps.refl c
  split
  · exact Keeps.refl c
  split
  · exact doWriteMessage_keeps { c with accepted := c.accepted ++ [m], isWriting := true } m
  split <;> exact ⟨id, id⟩

theorem writeQueued_keeps (c : Connection) : Keeps c c.writeQueued := by
  unfold writeQueued
  split
  · exact ⟨id, id⟩
  · exact ⟨id, id⟩
  · next m q _ => exact doWriteMessage_keeps { c with messageQueue := q } m

theorem onShutdown_keeps (c : Connection) (result : Except ErrorKind Unit) :
    Keeps c (c.onShutdown result) := by
  unfold onShutdown
  split
  · exact Keeps.refl c
  · exact Keeps.of_stopped (close_stopped c) fun _ => nofun

theorem onSslHandshake_keeps (c : Connection) (handshake : Message)
    (result : Except ErrorKind Unit) : Keeps c (c.onSslHandshake handshake result) := by
  unfold onSslHandshake
  cases result with
  | error ec => exact abort_keeps c
  | ok u =>
    dsimp only
    split <;> exact ⟨id, id⟩

theorem onIanHandshakeSent_keeps (c : Connection) (result : Except ErrorKind Unit) :
    Keeps c (c.onIanHandshakeSent result) := by
  unfold onIanHandshakeSent
  cases result with
  | error ec =>
    have hassign : Keeps c (c.assignOutbound .empty) := ⟨id, id⟩
    exact hassign.trans (handleWriteError_keeps _ ec)
  | ok u => exact ⟨id, id⟩

theorem handshakeBody_keeps (c : Connection) : Keeps c c.handshakeBody := by
  unfold handshakeBody
  split
  · exact ⟨id, id⟩
  split
  · exact shutdown_keeps c
  · have hread : Keeps c { c with
        readBuffer := c.readBuffer.drop c.inMessageLen
        inMessageLen := 0
        handshakeDone := true }.readNext := ⟨id, id⟩
    exact hread.trans (writeQueued_keeps _)

theorem onIanHandshake_keeps (c : Connection) (result : Except ErrorKind (List UInt8)) :
    Keeps c (c.onIanHandshake result) := by
  unfold onIanHandshake
  cases result with
  | error ec => exact handleError_keeps c ec
  | ok chunk =>
    have hbuffer : Keeps c { c with readBuffer := c.readBuffer ++ chunk } := ⟨id, id⟩
    have hlength : Keeps c { c with readBuffer := c.readBuffer ++ chunk }.takeLength := ⟨id, id⟩
    dsimp only
    split
    · split
      · exact hbuffer.trans (shutdown_keeps _)
      split
      · exact hlength.trans (shutdown_keeps _)
      · exact hlength.trans (handshakeBody_keeps _)
    · exact hbuffer.trans (handshakeBody_keeps _)

/-- What the loop of `on_read` does besides decoding: it starts the next read
or shuts the connection down. -/
theorem readLoop_cases {fuel : Nat} (h : readLoop fuel c = some c') :
    ∃ payloads len rest, c' = (decoded c payloads len rest).readNext ∨
      c' = (decoded c payloads len rest).shutdown := by
  induction fuel generalizing c with
  | zero => cases h
  | succ fuel ih =>
    -- A round takes a message off the buffer and goes on with the rest.
    have hround : ∀ len buffer, readLoop fuel { c with
          inMessageLen := len
          readBuffer := buffer }.takeMessage = some c' →
        ∃ payloads len rest, c' = (decoded c payloads len rest).readNext ∨
          c' = (decoded c payloads len rest).shutdown := by
      intro len buffer hrun
      obtain ⟨payloads, len', rest, hend⟩ := ih hrun
      refine ⟨buffer.take len :: payloads, len', rest, ?_⟩
      simpa only [decoded, takeMessage, List.map_cons, List.append_assoc,
        List.singleton_append] using hend
    have hself : ∀ len buffer, { c with inMessageLen := len, readBuffer := buffer } =
        decoded c [] len buffer := by
      intro len buffer
      simp only [decoded, List.map_nil, List.append_nil]
    unfold readLoop at h
    split at h
    · split at h
      · cases h
        exact ⟨[], _, _, Or.inl (congrArg readNext (hself _ _))⟩
      dsimp only at h
      split at h
      · cases h
        exact ⟨[], _, _, Or.inr (congrArg shutdown (hself _ _))⟩
      split at h
      · cases h
        exact ⟨[], _, _, Or.inl (congrArg readNext (hself _ _))⟩
      · exact hround _ _ h
    · split at h
      · cases h
        exact ⟨[], _, _, Or.inl (congrArg readNext (hself _ _))⟩
      · exact hround _ _ h

theorem onRead_cases (c : Connection) (chunk : List UInt8) :
    ∃ payloads len rest, c.onRead (.ok chunk) = (decoded c payloads len rest).readNext ∨
      c.onRead (.ok chunk) = (decoded c payloads len rest).shutdown := by
  have hsome := readLoop_isSome _ { c with readBuffer := c.readBuffer ++ chunk }
    (Nat.lt_succ_self _)
  obtain ⟨c', hrun⟩ := Option.isSome_iff_exists.mp hsome
  have hread : c.onRead (.ok chunk) = c' := by
    show (readLoop _ _).getD _ = c'
    rw [hrun]
    rfl
  rw [hread]
  have hcases := readLoop_cases hrun
  exact hcases

theorem onRead_keeps (c : Connection) (result : Except ErrorKind (List UInt8)) :
    Keeps c (c.onRead result) := by
  cases result with
  | error ec => exact handleError_keeps c ec
  | ok chunk =>
    obtain ⟨payloads, len, rest, hend | hend⟩ := onRead_cases c chunk
    · rw [hend]
      exact ⟨id, id⟩
    · rw [hend]
      exact shutdown_keeps (decoded c payloads len rest)

theorem onWriteMessage_keeps (c : Connection) (result : Except ErrorKind Unit) :
    Keeps c (c.onWriteMessage result) := by
  cases result with
  | error ec => exact handleWriteError_keeps (c.assignOutbound .empty) ec
  | ok u =>
    exact writeQueued_keeps
      { c.assignOutbound .empty with completed := c.completed ++ [c.messageOutbound] }

theorem without_keeps (c : Connection) (p : AsyncOp → Bool) : Keeps c (c.without p) := ⟨id, id⟩

theorem complete_cases {p : AsyncOp → Bool} {handler : Connection → Connection}
    (h : (c.complete p).map handler = some c') :
    c.pending.any p = true ∧ c' = handler (c.without p) := by
  unfold complete at h
  split at h
  · next hany =>
    cases h
    exact ⟨hany, rfl⟩
  · cases h

theorem step_cases {handshake : Message} {e : Event} (h : step handshake c e = some c') :
    c.fault = false ∧ StepCases handshake c e c' := by
  unfold step at h
  split at h
  · cases h
  next hfault =>
  refine ⟨Bool.eq_false_iff.mpr hfault, ?_⟩
  cases e with
  | send message =>
    cases h
    exact .send message
  | sslHandshake result =>
    obtain ⟨hany, rfl⟩ := complete_cases h
    exact .sslHandshake result hany
  | handshakeSent result =>
    obtain ⟨hany, rfl⟩ := complete_cases h
    exact .handshakeSent result hany
  | handshakeRead result =>
    obtain ⟨hany, rfl⟩ := complete_cases h
    exact .handshakeRead result hany
  | read result =>
    obtain ⟨hany, rfl⟩ := complete_cases h
    exact .read result hany
  | wrote result =>
    obtain ⟨hany, rfl⟩ := complete_cases h
    exact .wrote result hany
  | shutdownDone result =>
    obtain ⟨hany, rfl⟩ := complete_cases h
    exact .shutdownDone result hany

/-- A handler runs when its operation has completed. -/
theorem handler_cases {p : AsyncOp → Bool} {handler : Connection → Connection}
    (h : (if c.fault then none else (c.complete p).map handler) = some c') :
    c.pending.any p = true ∧ c' = handler (c.without p) := by
  split at h
  · cases h
  · exact complete_cases h

theorem step_keeps {handshake : Message} {e : Event} (h : step handshake c e = some c') :
    Keeps c c' := by
  cases (step_cases h).2 with
  | send message => exact sendMessage_keeps c message
  | sslHandshake result =>
    exact (without_keeps c _).trans (onSslHandshake_keeps _ handshake result)
  | handshakeSent result => exact (without_keeps c _).trans (onIanHandshakeSent_keeps _ result)
  | handshakeRead result => exact (without_keeps c _).trans (onIanHandshake_keeps _ result)
  | read result => exact (without_keeps c _).trans (onRead_keeps _ result)
  | wrote result => exact (without_keeps c _).trans (onWriteMessage_keeps _ result)
  | shutdownDone result => exact (without_keeps c _).trans (onShutdown_keeps _ result)

/-! ## The outbound side -/

theorem writeOutstanding_eq (c : Connection) : c.writeOutstanding = c.outbound.writing := by
  unfold writeOutstanding Outbound.writing outbound
  dsimp only
  induction c.pending with
  | nil => rfl
  | cons op ops ih =>
    rw [List.any_cons, ih, List.countP_cons, List.countP_cons]
    cases op <;> simp only [AsyncOp.isHandshakeWrite, AsyncOp.isMessageWrite] <;> grind

theorem assignOutbound_outbound (c : Connection) (m : Message) :
    (c.assignOutbound m).outbound = c.outbound.assign m := by
  unfold assignOutbound
  rw [writeOutstanding_eq]
  rfl

theorem assignLength_outbound (c : Connection) (size : Nat) : (c.assignLength size).outbound =
    { c.outbound with overwritten := c.outbound.overwritten || c.outbound.writing } := by
  unfold assignLength
  rw [writeOutstanding_eq]
  rfl

theorem write_outbound (c : Connection) (layer : Layer) (data : List UInt8) :
    (c.start (.write layer data)).outbound =
      { c.outbound with messageWrites := c.outbound.messageWrites + 1 } := by
  simp [start, outbound, List.countP_append, AsyncOp.isMessageWrite, AsyncOp.isHandshakeWrite,
    AsyncOp.isHandshakeWait]

theorem handshakeWrite_outbound (c : Connection) (data : List UInt8) :
    (c.start (.handshakeWrite data)).outbound =
      { c.outbound with handshakeWrites := c.outbound.handshakeWrites + 1 } := by
  simp [start, outbound, List.countP_append, AsyncOp.isMessageWrite, AsyncOp.isHandshakeWrite,
    AsyncOp.isHandshakeWait]

/-- Both buffers of a write are assigned. -/
theorem assign_outbound (c : Connection) (m : Message) (size : Nat) :
    ((c.assignOutbound m).assignLength size).outbound = c.outbound.assign m := by
  rw [assignLength_outbound, assignOutbound_outbound]
  have hor : ((c.outbound.assign m).overwritten || c.outbound.writing) =
      (c.outbound.assign m).overwritten := by
    show ((c.outbound.overwritten || c.outbound.writing) || c.outbound.writing) = _
    rw [Bool.or_assoc, Bool.or_self]
    rfl
  exact congrArg (fun b => { c.outbound.assign m with overwritten := b }) hor

theorem doWriteMessage_outbound (c : Connection) (m : Message) :
    (c.doWriteMessage m).outbound = c.outbound.write m := by
  obtain ⟨impl⟩ := m
  cases impl with
  | none =>
    show { (c.assignOutbound ⟨none⟩).outbound with fault := true } = _
    rw [assignOutbound_outbound]
    rfl
  | some payload =>
    show (((c.assignOutbound ⟨some payload⟩).assignLength payload.length).start _).outbound = _
    rw [write_outbound, assign_outbound]
    rfl

theorem writeQueued_outbound (c : Connection) : c.writeQueued.outbound = c.outbound.next := by
  unfold writeQueued Outbound.next
  have hqueue : c.outbound.queue.tryPop = c.messageQueue.tryPop := rfl
  rw [hqueue]
  cases c.messageQueue.tryPop with
  | none => rfl
  | some popped =>
    cases popped with
    | none => rfl
    | some popped => exact doWriteMessage_outbound { c with messageQueue := popped.2 } popped.1

/-- Operations that are no writes and no part of the handshake do not concern
the outbound side. -/
theorem readNext_outbound (c : Connection) : c.readNext.outbound = c.outbound := by
  simp [readNext, start, outbound, List.countP_append, AsyncOp.isMessageWrite,
    AsyncOp.isHandshakeWrite, AsyncOp.isHandshakeWait]

theorem handshakeRead_outbound (c : Connection) : (c.start .handshakeRead).outbound =
    { c.outbound with handshakeWaits := c.outbound.handshakeWaits + 1 } := by
  simp [start, outbound, List.countP_append, AsyncOp.isMessageWrite, AsyncOp.isHandshakeWrite,
    AsyncOp.isHandshakeWait]

theorem sendMessage_outbound {m : Message} (hrunning : c.stopped = false)
    (hm : m.isEmpty = false) : (c.sendMessage m).outbound = c.outbound.accept m := by
  have hflags := flags_of_running hrunning
  have hpush : c.outbound.queue.push m = c.messageQueue.push m := rfl
  have hwriting : c.outbound.isWriting = c.isWriting := rfl
  unfold sendMessage sendMessageBody Outbound.accept
  rw [if_neg (by simp [hm]), if_neg (by simp [hflags]), hpush, hwriting]
  dsimp only
  by_cases hw : c.isWriting = true
  · rw [if_neg (by simp [hw]), if_pos hw]
    cases c.messageQueue.push m with
    | none => rfl
    | some queue => rfl
  · rw [if_pos (by simpa using hw), if_neg hw]
    exact doWriteMessage_outbound { c with accepted := c.accepted ++ [m], isWriting := true } m

/-! ## Completions -/

theorem erase_messageWrite (hany : c.pending.any AsyncOp.isMessageWrite = true) :
    (c.without AsyncOp.isMessageWrite).outbound =
      { c.outbound with messageWrites := c.outbound.messageWrites - 1 } := by
  have hwrites := countP_eraseP_of_imp (q := AsyncOp.isMessageWrite) (fun _ h => h) hany
  have hgreetings := countP_eraseP_of_disjoint (p := AsyncOp.isMessageWrite)
    (q := AsyncOp.isHandshakeWrite) (fun op h => by cases op <;> first | rfl | cases h) c.pending
  have hwaits := countP_eraseP_of_disjoint (p := AsyncOp.isMessageWrite)
    (q := AsyncOp.isHandshakeWait) (fun op h => by cases op <;> first | rfl | cases h) c.pending
  simp only [without, outbound, hgreetings, hwaits, ← hwrites, Nat.add_sub_cancel]

theorem erase_handshakeWrite (hany : c.pending.any AsyncOp.isHandshakeWrite = true) :
    (c.without AsyncOp.isHandshakeWrite).outbound =
      { c.outbound with handshakeWrites := c.outbound.handshakeWrites - 1 } := by
  have hgreetings := countP_eraseP_of_imp (q := AsyncOp.isHandshakeWrite) (fun _ h => h) hany
  have hwrites := countP_eraseP_of_disjoint (p := AsyncOp.isHandshakeWrite)
    (q := AsyncOp.isMessageWrite) (fun op h => by cases op <;> first | rfl | cases h) c.pending
  have hwaits := countP_eraseP_of_disjoint (p := AsyncOp.isHandshakeWrite)
    (q := AsyncOp.isHandshakeWait) (fun op h => by cases op <;> first | rfl | cases h) c.pending
  simp only [without, outbound, hwrites, hwaits, ← hgreetings, Nat.add_sub_cancel]

theorem erase_handshakeWait {p : AsyncOp → Bool}
    (hp : ∀ op, p op = true → op = .sslHandshake ∨ op = .handshakeRead)
    (hany : c.pending.any p = true) :
    (c.without p).outbound = c.outbound.giveUp := by
  have hwaits := countP_eraseP_of_imp (q := AsyncOp.isHandshakeWait)
    (fun op h => by rcases hp op h with rfl | rfl <;> rfl) hany
  have hwrites := countP_eraseP_of_disjoint (q := AsyncOp.isMessageWrite)
    (fun op h => by rcases hp op h with rfl | rfl <;> rfl) c.pending
  have hgreetings := countP_eraseP_of_disjoint (q := AsyncOp.isHandshakeWrite)
    (fun op h => by rcases hp op h with rfl | rfl <;> rfl) c.pending
  simp only [without, outbound, Outbound.giveUp, hwrites, hgreetings, ← hwaits,
    Nat.add_sub_cancel]

theorem erase_other {p : AsyncOp → Bool}
    (hp : ∀ op, p op = true → op = .sslShutdown ∨ ∃ layer, op = .read layer) :
    (c.without p).outbound = c.outbound := by
  have hwaits := countP_eraseP_of_disjoint (q := AsyncOp.isHandshakeWait)
    (fun op h => by rcases hp op h with rfl | ⟨_, rfl⟩ <;> rfl) c.pending
  have hwrites := countP_eraseP_of_disjoint (q := AsyncOp.isMessageWrite)
    (fun op h => by rcases hp op h with rfl | ⟨_, rfl⟩ <;> rfl) c.pending
  have hgreetings := countP_eraseP_of_disjoint (q := AsyncOp.isHandshakeWrite)
    (fun op h => by rcases hp op h with rfl | ⟨_, rfl⟩ <;> rfl) c.pending
  simp only [without, outbound, hwaits, hwrites, hgreetings]

/-! ## Handlers -/

theorem handleError_outbound (hopen : c.Closable) (ec : ErrorKind) :
    (c.handleError ec).stopped = true ∨ (c.handleError ec).outbound = c.outbound := by
  unfold handleError
  split
  · exact Or.inl (stopped_of_dropped ‹_›)
  · cases ec with
    | reset => exact Or.inl (abort_stopped c)
    | canceled => exact Or.inr rfl
    | other => exact Or.inl (shutdown_stopped hopen)

theorem onSslHandshake_outbound {handshake : Message} (hm : handshake.isEmpty = false) :
    (c.onSslHandshake handshake (.ok ())).outbound =
      { c.outbound.assign handshake with
        handshakeWrites := c.outbound.handshakeWrites + 1 } := by
  obtain ⟨impl⟩ := handshake
  cases impl with
  | none => cases hm
  | some payload =>
    show (((c.assignOutbound ⟨some payload⟩).assignLength payload.length).start _).outbound = _
    rw [handshakeWrite_outbound, assign_outbound]
    rfl

theorem handshakeBody_outbound (hopen : c.Closable) :
    c.handshakeBody.stopped = true ∨ c.handshakeBody.outbound =
        { c.outbound with handshakeWaits := c.outbound.handshakeWaits + 1 } ∨
      c.handshakeBody.outbound = Outbound.next { c.outbound with ready := true } := by
  unfold handshakeBody
  split
  · exact Or.inr (Or.inl (handshakeRead_outbound c))
  split
  · exact Or.inl (shutdown_stopped hopen)
  · rw [writeQueued_outbound, readNext_outbound]
    exact Or.inr (Or.inr rfl)

theorem onIanHandshake_outbound (hopen : c.Closable) (result : Except ErrorKind (List UInt8)) :
    (c.onIanHandshake result).stopped = true ∨ (c.onIanHandshake result).outbound = c.outbound ∨
      (c.onIanHandshake result).outbound =
        { c.outbound with handshakeWaits := c.outbound.handshakeWaits + 1 } ∨
      (c.onIanHandshake result).outbound = Outbound.next { c.outbound with ready := true } := by
  cases result with
  | error ec =>
    rcases handleError_outbound hopen ec with hstop | hsame
    · exact Or.inl hstop
    · exact Or.inr (Or.inl hsame)
  | ok chunk =>
    have hbody : ∀ c1 : Connection, c1.Closable → c1.outbound = c.outbound →
        c1.handshakeBody.stopped = true ∨ c1.handshakeBody.outbound = c.outbound ∨
          c1.handshakeBody.outbound =
            { c.outbound with handshakeWaits := c.outbound.handshakeWaits + 1 } ∨
          c1.handshakeBody.outbound = Outbound.next { c.outbound with ready := true } := by
      intro c1 hopen1 hsame
      rw [← hsame]
      rcases handshakeBody_outbound hopen1 with hstop | hwait | hdone
      · exact Or.inl hstop
      · exact Or.inr (Or.inr (Or.inl hwait))
      · exact Or.inr (Or.inr (Or.inr hdone))
    unfold onIanHandshake
    dsimp only
    split
    · split
      · exact Or.inl (shutdown_stopped hopen)
      split
      · exact Or.inl (shutdown_stopped hopen)
      · exact hbody _ hopen rfl
    · exact hbody _ hopen rfl

theorem onRead_outbound (hopen : c.Closable) (result : Except ErrorKind (List UInt8)) :
    (c.onRead result).stopped = true ∨ (c.onRead result).outbound = c.outbound := by
  cases result with
  | error ec => exact handleError_outbound hopen ec
  | ok chunk =>
    obtain ⟨payloads, len, rest, hend | hend⟩ := onRead_cases c chunk
    · rw [hend, readNext_outbound]
      exact Or.inr rfl
    · rw [hend]
      exact Or.inl (shutdown_stopped hopen)

theorem onWriteMessage_outbound (c : Connection) : (c.onWriteMessage (.ok ())).outbound =
    Outbound.next { c.outbound.assign .empty with
      completed := c.outbound.completed ++ [c.outbound.outbound] } := by
  show (writeQueued _).outbound = _
  rw [writeQueued_outbound]
  exact congrArg (fun o : Outbound => Outbound.next { o with
    completed := c.completed ++ [c.messageOutbound] }) (assignOutbound_outbound c .empty)

theorem isRead_cases (op : AsyncOp) (hop : op.isRead = true) :
    op = .sslShutdown ∨ ∃ layer, op = .read layer := by
  cases op <;> first | exact Or.inr ⟨_, rfl⟩ | cases hop

theorem sslHandshake_step {handshake : Message} (hhandshake : handshake.isEmpty = false)
    (hany : c.pending.any (· == .sslHandshake) = true) :
    Outbound.Step c.outbound
      ((c.without (· == .sslHandshake)).onSslHandshake handshake (.ok ())).outbound := by
  have hwait : 0 < c.outbound.handshakeWaits :=
    countP_pos_of_any (fun op h => by rw [eq_of_beq h]; rfl) hany
  rw [onSslHandshake_outbound hhandshake, erase_handshakeWait (by simp) hany]
  have hgreet : c.outbound.greet handshake =
      { c.outbound.giveUp.assign handshake with
        handshakeWrites := c.outbound.giveUp.handshakeWrites + 1 } := by
    rw [Message.eq_fromVector hhandshake]
    rfl
  rw [← hgreet]
  exact .greet hwait hhandshake

/-- A read of the handshake stops the connection, gives up, reads on or
finishes the handshake. -/
theorem handshakeRead_step (hopen : c.Closable)
    (hany : c.pending.any (· == .handshakeRead) = true) (result : Except ErrorKind (List UInt8)) :
    ((c.without (· == .handshakeRead)).onIanHandshake result).stopped = true ∨
      Outbound.Step c.outbound
        ((c.without (· == .handshakeRead)).onIanHandshake result).outbound := by
  have hwait : 0 < c.outbound.handshakeWaits :=
    countP_pos_of_any (fun op h => by rw [eq_of_beq h]; rfl) hany
  have herase : (c.without (· == .handshakeRead)).outbound = c.outbound.giveUp :=
    erase_handshakeWait (by simp) hany
  rcases onIanHandshake_outbound (c := c.without _) hopen result with
    hstop | hsame | hagain | hdone
  · exact Or.inl hstop
  · rw [hsame, herase]
    exact Or.inr (.giveUp hwait)
  · rw [hagain, herase]
    have hsame : { c.outbound.giveUp with
        handshakeWaits := c.outbound.giveUp.handshakeWaits + 1 } = c.outbound := by
      show { c.outbound with handshakeWaits := c.outbound.handshakeWaits - 1 + 1 } = _
      rw [Nat.sub_add_cancel hwait]
    rw [hsame]
    exact Or.inr .stay
  · rw [hdone, herase]
    exact Or.inr (.finishHandshake hwait)

end WritingLemmas

open WritingLemmas

/-- A step of a running connection stops it or is a step of its outbound
side. -/
theorem step_outbound {handshake : Message} (hhandshake : handshake.isEmpty = false) {e : Event}
    (hopen : c.Closable) (hrunning : c.stopped = false) (h : step handshake c e = some c') :
    c'.stopped = true ∨ Outbound.Step c.outbound c'.outbound := by
  cases (step_cases h).2 with
  | send message =>
    cases hm : message.isEmpty with
    | true =>
      unfold sendMessage
      rw [if_pos hm]
      exact Or.inr .stay
    | false =>
      rw [sendMessage_outbound hrunning hm]
      exact Or.inr (.accept hm)
  | sslHandshake result hany =>
    cases result with
    | error ec => exact Or.inl (abort_stopped _)
    | ok u => exact Or.inr (sslHandshake_step hhandshake hany)
  | handshakeSent result hany =>
    have hwrite : 0 < c.outbound.handshakeWrites := countP_pos_of_any (fun _ h => h) hany
    cases result with
    | error ec => exact Or.inl (handleWriteError_stopped _ ec)
    | ok u =>
      show _ ∨ Outbound.Step _ (((assignOutbound _ .empty).start .handshakeRead).outbound)
      rw [handshakeRead_outbound, assignOutbound_outbound, erase_handshakeWrite hany]
      exact Or.inr (.greeted hwrite)
  | handshakeRead result hany => exact handshakeRead_step hopen hany result
  | read result hany =>
    rcases onRead_outbound (c := c.without _) hopen result with hstop | hsame
    · exact Or.inl hstop
    · rw [hsame, erase_other isRead_cases]
      exact Or.inr .stay
  | wrote result hany =>
    have hwrite : 0 < c.outbound.messageWrites := countP_pos_of_any (fun _ h => h) hany
    cases result with
    | error ec => exact Or.inl (handleWriteError_stopped _ ec)
    | ok u =>
      rw [onWriteMessage_outbound, erase_messageWrite hany]
      exact Or.inr (.wrote hwrite)
  | shutdownDone result =>
    unfold onShutdown
    split
    · exact Or.inl (stopped_of_dropped ‹_›)
    · exact Or.inl (close_stopped _)

/-- The outbound side of a connection that has run and has not stopped is
ordered. -/
theorem run_outbound {handshake : Message} (hhandshake : handshake.isEmpty = false)
    {safeLink : Bool} {es : List Event}
    (h : runEvents (step handshake) (init.run safeLink) es = some c)
    (hrunning : c.stopped = false) :
    c.outbound.Ordered := by
  have hinv : c.Closable ∧ (c.stopped = false → c.outbound.Ordered) := by
    refine run_invariant (I := fun c => c.Closable ∧ (c.stopped = false → c.outbound.Ordered))
      ?_ ?_ h
    · intro s e s' hI hstep
      have hkeeps := step_keeps hstep
      refine ⟨hkeeps.2 hI.1, fun hrunning' => ?_⟩
      have hrunning : s.stopped = false := by
        cases hs : s.stopped with
        | false => rfl
        | true => cases (hkeeps.1 hs).symm.trans hrunning'
      rcases step_outbound hhandshake hI.1 hrunning hstep with hstop | hnext
      · cases hstop.symm.trans hrunning'
      · exact hnext.ordered (hI.2 hrunning)
    · refine ⟨fun _ => rfl, fun _ => ?_⟩
      exact ⟨rfl, Nat.zero_le 1, rfl, nofun, nofun, MessageQueue.valid_init,
        fun _ => ⟨rfl, rfl, Nat.le_refl 1⟩, nofun, rfl⟩
  exact hinv.2 hrunning

end Connection

end Ian.Cluster
