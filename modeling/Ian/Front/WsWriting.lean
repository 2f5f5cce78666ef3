import Ian.Cluster.Writing
import Ian.Front.WsConnection

/-!
# The outbound side of the websocket connection

The websocket connection writes by the discipline of the cluster connection,
without a handshake of its own on the outbound side: `outbound` is ready from
the start. `writes_ordered` states the order of the messages for both.
-/

namespace Ian.Front

open Ian.Lib Ian.Common

namespace WsConnection

/-- The outbound side. -/
def outbound (c : WsConnection) : Outbound where
  isWriting := c.isWriting
  queue := c.messageQueue
  outbound := c.messageOutbound
  messageWrites := c.pending.countP WsOp.isWrite
  handshakeWrites := 0
  handshakeWaits := 0
  ready := true
  accepted := c.accepted
  completed := c.completed
  overwritten := c.overwritten
  fault := c.fault

/-- The connection when the handler of an operation is run. -/
def without (c : WsConnection) (p : WsOp → Bool) : WsConnection :=
  { c with pending := c.pending.eraseP p }

/-- What a step in the strand is. -/
inductive StepCases (settings : Settings) (c : WsConnection) : WsEvent → WsConnection → Prop where
  | send (message : Message) : StepCases settings c (.send message) (c.sendMessage message)
  | sslHandshake (result : Except ErrorKind Unit)
    (hany : c.pending.any (· == .sslHandshake) = true) :
    StepCases settings c (.sslHandshake result)
      ((c.without (· == .sslHandshake)).onSslHandshake result)
  | requestRead (result : Except ErrorKind Request) (active : Int)
    (hany : c.pending.any (· == .requestRead) = true) :
    StepCases settings c (.requestRead result active)
      ((c.without (· == .requestRead)).onReadRequest settings result active)
  | wsHandshake (result : Except ErrorKind Unit)
    (hany : c.pending.any (· == .wsHandshake) = true) :
    StepCases settings c (.wsHandshake result)
      ((c.without (· == .wsHandshake)).onWsHandshake settings result)
  | read (result : Except ErrorKind Inbound) (hany : c.pending.any (· == .read) = true) :
    StepCases settings c (.read result) ((c.without (· == .read)).onRead settings result)
  | wrote (result : Except ErrorKind Unit) (hany : c.pending.any WsOp.isWrite = true) :
    StepCases settings c (.wrote result) ((c.without WsOp.isWrite).onWriteMessage result)
  | shutdownDone (result : Except ErrorKind Unit)
    (hany : c.pending.any (· == .sslShutdown) = true) :
    StepCases settings c (.shutdownDone result)
      ((c.without (· == .sslShutdown)).onShutdown result)
  | tick (duration : Nat) : StepCases settings c (.tick duration) { c with now := c.now + duration }
  | expire (id : TimerId) (t : Timer Unit) (ht : (c.getTimer id).expire c.now = some t) :
    StepCases settings c (.expire id) (c.setTimer t id)
  | timeout (id : TimerId) (i : Nat) (w : Wait Unit) (t : Timer Unit)
    (ht : (c.getTimer id).take i = some (w, t)) :
    StepCases settings c (.timeout id i) ((c.setTimer t id).onTimeout w.state)

/-- The connection is dropped, shutting down, or has failed to write. -/
def stopped (c : WsConnection) : Bool := c.dropped || c.shuttingDown || c.writeFailed

/-- A connection that has not been closed has an open socket. -/
def Closable (c : WsConnection) : Prop := c.dropped = false → c.socketOpen = true

/-- Stopping is for good, and so is closing. -/
def Keeps (c c' : WsConnection) : Prop :=
  (c.stopped = true → c'.stopped = true) ∧ (c.Closable → c'.Closable)

variable {c c' c'' : WsConnection}

theorem Keeps.refl (c : WsConnection) : Keeps c c := ⟨id, id⟩

theorem Keeps.trans (h : Keeps c c') (h' : Keeps c' c'') : Keeps c c'' :=
  ⟨fun hs => h'.1 (h.1 hs), fun hc => h'.2 (h.2 hc)⟩

namespace WsWritingLemmas

/-! ## Stopping -/

theorem stopped_of_dropped (h : c.dropped = true) : c.stopped = true := by
  unfold stopped
  rw [h]
  rfl

/-- A connection that has not stopped is neither dropped nor shutting down. -/
theorem flags_of_running (h : c.stopped = false) : (c.dropped || c.shuttingDown) = false :=
  (Bool.or_eq_false_iff.mp h).1

theorem close_stopped (c : WsConnection) : c.close.stopped = true := stopped_of_dropped rfl

theorem close_keeps (c : WsConnection) : Keeps c c.close :=
  ⟨fun _ => close_stopped c, fun _ => nofun⟩

theorem abort_stopped (c : WsConnection) : c.abort.stopped = true := by
  unfold abort
  split
  · exact stopped_of_dropped ‹_›
  · exact close_stopped _

theorem abort_keeps (c : WsConnection) : Keeps c c.abort := by
  unfold abort
  split
  · exact Keeps.refl c
  · exact close_keeps c.cancelAll

/-- A call of `shutdown` stops a connection, except that it leaves alone one
whose socket is not open. -/
theorem shutdown_stopped (hopen : c.Closable) : c.shutdown.stopped = true := by
  unfold shutdown
  split
  · next hflags =>
    unfold stopped
    rw [hflags]
    rfl
  · next hflags =>
    have hdropped : c.dropped = false := by
      cases hd : c.dropped with
      | false => rfl
      | true => simp [hd] at hflags
    dsimp only
    rw [if_neg (by simp [cancelAll, hopen hdropped])]
    simp [stopped]

theorem shutdown_keeps (c : WsConnection) : Keeps c c.shutdown := by
  unfold shutdown
  dsimp only
  split
  · exact Keeps.refl c
  split
  · exact ⟨id, id⟩
  · exact ⟨fun _ => by simp [stopped], id⟩

theorem handleError_keeps (c : WsConnection) (ec : ErrorKind) : Keeps c (c.handleError ec) := by
  unfold handleError
  split
  · exact Keeps.refl c
  · cases ec with
    | reset => exact abort_keeps c
    | canceled => exact Keeps.refl c
    | other => exact shutdown_keeps c

theorem handleWriteError_keeps (c : WsConnection) (ec : ErrorKind) :
    Keeps c (c.handleWriteError ec) := by
  have hfailed : Keeps c { c with writeFailed := true } := ⟨fun _ => by simp [stopped], id⟩
  exact hfailed.trans (handleError_keeps _ ec)

theorem handleWriteError_stopped (c : WsConnection) (ec : ErrorKind) :
    (c.handleWriteError ec).stopped = true :=
  (handleError_keeps { c with writeFailed := true } ec).1 (by simp [stopped])

theorem doWriteMessage_keeps (c : WsConnection) (m : Message) : Keeps c (c.doWriteMessage m) := by
  unfold doWriteMessage
  dsimp only
  split <;> exact ⟨id, id⟩

theorem sendMessage_keeps (c : WsConnection) (m : Message) : Keeps c (c.sendMessage m) := by
  unfold sendMessage sendMessageBody
  dsimp only
  split
  · exact Keeps.refl c
  split
  · exact Keeps.refl c
  split
  · exact doWriteMessage_keeps { c with accepted := c.accepted ++ [m], isWriting := true } m
  split <;> exact ⟨id, id⟩

theorem writeQueued_keeps (c : WsConnection) : Keeps c c.writeQueued := by
  unfold writeQueued
  split
  · exact ⟨id, id⟩
  · exact ⟨id, id⟩
  · next m q _ => exact doWriteMessage_keeps { c with messageQueue := q } m

theorem onWriteMessage_keeps (c : WsConnection) (result : Except ErrorKind Unit) :
    Keeps c (c.onWriteMessage result) := by
  cases result with
  | error ec => exact handleWriteError_keeps (c.assignOutbound .empty) ec
  | ok u =>
    exact writeQueued_keeps
      { c.assignOutbound .empty with completed := c.completed ++ [c.messageOutbound] }

/-! ## Handlers that do not write -/

/-- A handler that does not write: it stops the connection, or leaves its
outbound side alone. -/
structure Aside (c c' : WsConnection) : Prop where
  keeps : Keeps c c'
  outbound : c.Closable → c'.stopped = true ∨ c'.outbound = c.outbound

theorem Aside.of_stopped (hkeeps : Keeps c c') (h : c.Closable → c'.stopped = true) : Aside c c' :=
  ⟨hkeeps, fun hopen => Or.inl (h hopen)⟩

theorem Aside.of_eq (hkeeps : Keeps c c') (h : c'.outbound = c.outbound) : Aside c c' :=
  ⟨hkeeps, fun _ => Or.inr h⟩

theorem Aside.trans (h : Aside c c') (h' : Aside c' c'') : Aside c c'' := by
  refine ⟨h.keeps.trans h'.keeps, fun hopen => ?_⟩
  rcases h.outbound hopen with hstop | hsame
  · exact Or.inl (h'.keeps.1 hstop)
  · rcases h'.outbound (h.keeps.2 hopen) with hstop' | hsame'
    · exact Or.inl hstop'
    · exact Or.inr (hsame'.trans hsame)

theorem abort_aside (c : WsConnection) : Aside c c.abort :=
  Aside.of_stopped (abort_keeps c) fun _ => abort_stopped c

theorem shutdown_aside (c : WsConnection) : Aside c c.shutdown :=
  Aside.of_stopped (shutdown_keeps c) shutdown_stopped

theorem start_aside {op : WsOp} (hop : op.isWrite = false) (c : WsConnection) :
    Aside c (c.start op) := by
  refine Aside.of_eq ⟨id, id⟩ ?_
  simp [start, outbound, List.countP_append, hop]

theorem setTimeout_aside (c : WsConnection) (delay : Int) : Aside c (c.setTimeout delay) :=
  Aside.of_eq ⟨id, id⟩ rfl

theorem handleError_aside (c : WsConnection) (ec : ErrorKind) : Aside c (c.handleError ec) := by
  unfold handleError
  split
  · exact Aside.of_eq (Keeps.refl c) rfl
  · cases ec with
    | reset => exact abort_aside c
    | canceled => exact Aside.of_eq (Keeps.refl c) rfl
    | other => exact shutdown_aside c

theorem onTimeout_aside (c : WsConnection) (state : WaitState) : Aside c (c.onTimeout state) := by
  unfold onTimeout
  split
  · exact Aside.of_eq (Keeps.refl c) rfl
  · exact abort_aside c

theorem onShutdown_aside (c : WsConnection) (result : Except ErrorKind Unit) :
    Aside c (c.onShutdown result) := by
  unfold onShutdown
  split
  · exact Aside.of_eq (Keeps.refl c) rfl
  · exact Aside.of_stopped (close_keeps c) fun _ => close_stopped c

theorem onSslHandshake_aside (c : WsConnection) (result : Except ErrorKind Unit) :
    Aside c (c.onSslHandshake result) := by
  cases result with
  | error ec => exact abort_aside c
  | ok u => exact start_aside rfl c

theorem respond_aside (c : WsConnection) (response : Response) : Aside c (c.respond response) := by
  have hlog : Aside c { c with responses := c.responses ++ [response] } :=
    Aside.of_eq ⟨id, id⟩ rfl
  exact hlog.trans (shutdown_aside _)

theorem onReadRequest_aside (settings : Settings) (c : WsConnection)
    (result : Except ErrorKind Request) (active : Int) :
    Aside c (c.onReadRequest settings result active) := by
  cases result with
  | error ec => exact handleError_aside c ec
  | ok request =>
    have hbuffer : ∀ buffer, Aside c { c with readBuffer := buffer } :=
      fun _ => Aside.of_eq ⟨id, id⟩ rfl
    have hcleared : ∃ buffer, { c with readBuffer := buffer } =
        (if 0 < (c.readBuffer ++ request.leftover).length then { c with readBuffer := [] }
          else { c with readBuffer := c.readBuffer ++ request.leftover }) := by
      split
      · exact ⟨[], rfl⟩
      · exact ⟨_, rfl⟩
    obtain ⟨buffer, hbuf⟩ := hcleared
    unfold onReadRequest
    dsimp only
    rw [← hbuf]
    split
    · exact (hbuffer buffer).trans (respond_aside _ _)
    split
    · exact (hbuffer buffer).trans (start_aside rfl _)
    · exact (hbuffer buffer).trans (respond_aside _ _)

theorem onWsHandshake_aside (settings : Settings) (c : WsConnection)
    (result : Except ErrorKind Unit) : Aside c (c.onWsHandshake settings result) := by
  unfold onWsHandshake
  split
  · exact Aside.of_eq (Keeps.refl c) rfl
  cases result with
  | error ec => exact shutdown_aside c
  | ok u =>
    have hupgraded : Aside c { c with upgraded := true } := Aside.of_eq ⟨id, id⟩ rfl
    exact (hupgraded.trans (setTimeout_aside _ _)).trans (start_aside rfl _)

theorem checkRateLimit_aside (settings : Settings) (c : WsConnection) :
    Aside c (c.checkRateLimit settings).2 := by
  unfold checkRateLimit
  split
  · split
    · exact Aside.of_eq ⟨id, id⟩ rfl
    · exact abort_aside c
  · exact Aside.of_eq (Keeps.refl c) rfl

theorem onRead_aside (settings : Settings) (c : WsConnection) (result : Except ErrorKind Inbound) :
    Aside c (c.onRead settings result) := by
  cases result with
  | error ec => exact handleError_aside c ec
  | ok inbound =>
    have hcount : Aside c { c with
        readBuffer := c.readBuffer ++ inbound.data
        rateLimitMessages := c.rateLimitMessages + 1
        rateLimitBytes := (c.rateLimitBytes + inbound.data.length) % 2 ^ 64 } :=
      Aside.of_eq ⟨id, id⟩ rfl
    have hlimit := hcount.trans (checkRateLimit_aside settings _)
    unfold onRead
    dsimp only
    split
    · next h =>
      rw [h] at hlimit
      exact hlimit
    · next c1 h =>
      rw [h] at hlimit
      split
      · exact hlimit.trans (shutdown_aside c1)
      · have hconsume : Aside c1 { c1 with
            readBuffer := c1.readBuffer.drop inbound.data.length } := Aside.of_eq ⟨id, id⟩ rfl
        have hop : WsOp.read.isWrite = false := rfl
        have hread := (hlimit.trans hconsume).trans (start_aside hop _)
        have hdeliver : ∀ (c2 : WsConnection) (m : Message),
            Aside c2 { c2 with delivered := c2.delivered ++ [m] } :=
          fun _ _ => Aside.of_eq ⟨id, id⟩ rfl
        split
        · exact (hread.trans (setTimeout_aside _ _)).trans (hdeliver _ _)
        · exact hread.trans (hdeliver _ _)

/-! ## Handlers that write -/

theorem assignOutbound_outbound (c : WsConnection) (m : Message) :
    (c.assignOutbound m).outbound = c.outbound.assign m := by
  have hany : c.pending.any WsOp.isWrite = c.outbound.writing := by
    unfold Outbound.writing outbound
    dsimp only
    induction c.pending with
    | nil => rfl
    | cons op ops ih =>
      rw [List.any_cons, ih, List.countP_cons]
      cases op <;> simp [WsOp.isWrite]
  unfold assignOutbound
  rw [hany]
  rfl

theorem doWriteMessage_outbound (c : WsConnection) (m : Message) :
    (c.doWriteMessage m).outbound = c.outbound.write m := by
  obtain ⟨impl⟩ := m
  cases impl with
  | none =>
    show { (c.assignOutbound ⟨none⟩).outbound with fault := true } = _
    rw [assignOutbound_outbound]
    rfl
  | some payload =>
    have hwrite : ((c.assignOutbound ⟨some payload⟩).start (.write payload)).outbound =
        { (c.assignOutbound ⟨some payload⟩).outbound with
          messageWrites := c.outbound.messageWrites + 1 } := by
      simp [start, assignOutbound, outbound, List.countP_append, WsOp.isWrite]
    show ((c.assignOutbound ⟨some payload⟩).start (.write payload)).outbound = _
    rw [hwrite, assignOutbound_outbound]
    rfl

theorem writeQueued_outbound (c : WsConnection) : c.writeQueued.outbound = c.outbound.next := by
  unfold writeQueued Outbound.next
  have hqueue : c.outbound.queue.tryPop = c.messageQueue.tryPop := rfl
  rw [hqueue]
  cases c.messageQueue.tryPop with
  | none => rfl
  | some popped =>
    cases popped with
    | none => rfl
    | some popped => exact doWriteMessage_outbound { c with messageQueue := popped.2 } popped.1

theorem onWriteMessage_outbound (c : WsConnection) : (c.onWriteMessage (.ok ())).outbound =
    Outbound.next { c.outbound.assign .empty with
      completed := c.outbound.completed ++ [c.outbound.outbound] } := by
  show (writeQueued _).outbound = _
  rw [writeQueued_outbound]
  exact congrArg (fun o : Outbound => Outbound.next { o with
    completed := c.completed ++ [c.messageOutbound] }) (assignOutbound_outbound c .empty)

theorem sendMessage_outbound {m : Message} (hrunning : c.stopped = false)
    (hm : m.isEmpty = false) : (c.sendMessage m).outbound = c.outbound.accept m := by
  have hflags := flags_of_running hrunning
  have hpush : c.outbound.queue.push m = c.messageQueue.push m := rfl
  have hwriting : c.outbound.isWriting = c.isWriting := rfl
  unfold sendMessage sendMessageBody Outbound.accept
  rw [if_neg (by simp [hm]), if_neg (by simp [hflags]), hpush, hwriting]
  dsimp only
  by_cases hw : c.isWriting = true
  · rw [if_neg (by simp [hw]), if_pos hw]
    cases c.messageQueue.push m with
    | none => rfl
    | some queue => rfl
  · rw [if_pos (by simpa using hw), if_neg hw]
    exact doWriteMessage_outbound { c with accepted := c.accepted ++ [m], isWriting := true } m

/-! ## Completions -/

theorem complete_cases {p : WsOp → Bool} {handler : WsConnection → WsConnection}
    (h : (c.complete p).map handler = some c') :
    c.pending.any p = true ∧ c' = handler (c.without p) := by
  unfold complete at h
  split at h
  · next hany =>
    cases h
    exact ⟨hany, rfl⟩
  · cases h

theorem step_cases {settings : Settings} {e : WsEvent} (h : step settings c e = some c') :
    c.fault = false ∧ StepCases settings c e c' := by
  unfold step at h
  split at h
  · cases h
  next hfault =>
  refine ⟨Bool.eq_false_iff.mpr hfault, ?_⟩
  cases e with
  | send message =>
    cases h
    exact .send message
  | sslHandshake result =>
    obtain ⟨hany, rfl⟩ := complete_cases h
    exact .sslHandshake result hany
  | requestRead result active =>
    obtain ⟨hany, rfl⟩ := complete_cases h
    exact .requestRead result active hany
  | wsHandshake result =>
    obtain ⟨hany, rfl⟩ := complete_cases h
    exact .wsHandshake result hany
  | read result =>
    obtain ⟨hany, rfl⟩ := complete_cases h
    exact .read result hany
  | wrote result =>
    obtain ⟨hany, rfl⟩ := complete_cases h
    exact .wrote result hany
  | shutdownDone result =>
    obtain ⟨hany, rfl⟩ := complete_cases h
    exact .shutdownDone result hany
  | tick duration =>
    cases h
    exact .tick duration
  | expire id =>
    obtain ⟨t, ht, rfl⟩ := Option.map_eq_some_iff.mp h
    exact .expire id t ht
  | timeout id i =>
    obtain ⟨⟨w, t⟩, ht, rfl⟩ := Option.map_eq_some_iff.mp h
    exact .timeout id i w t ht

theorem step_send {settings : Settings} {message : Message}
    (h : step settings c (.send message) = some c') : c' = c.sendMessage message := by
  cases (step_cases h).2 with
  | send => rfl

theorem without_aside {op : WsOp} (hop : op.isWrite = false) (c : WsConnection) :
    Aside c (c.without (· == op)) := by
  refine Aside.of_eq ⟨id, id⟩ ?_
  have hwrites := countP_eraseP_of_disjoint (p := (· == op)) (q := WsOp.isWrite)
    (fun _ h => by rw [eq_of_beq h]; exact hop) c.pending
  simp only [without, outbound, hwrites]

theorem setTimer_aside (c : WsConnection) (t : Timer Unit) (id : TimerId) :
    Aside c (c.setTimer t id) := by
  cases id <;> exact Aside.of_eq ⟨fun h => h, fun h => h⟩ rfl

/-- The steps that are neither a send nor the completion of a write. -/
theorem step_aside {settings : Settings} {e : WsEvent} (h : step settings c e = some c')
    (hsend : ∀ m, e ≠ .send m) (hwrote : ∀ result, e ≠ .wrote result) : Aside c c' := by
  cases (step_cases h).2 with
  | send message => exact absurd rfl (hsend message)
  | wrote result => exact absurd rfl (hwrote result)
  | sslHandshake result => exact (without_aside rfl c).trans (onSslHandshake_aside _ result)
  | requestRead result active =>
    exact (without_aside rfl c).trans (onReadRequest_aside settings _ result active)
  | wsHandshake result => exact (without_aside rfl c).trans (onWsHandshake_aside settings _ result)
  | read result => exact (without_aside rfl c).trans (onRead_aside settings _ result)
  | shutdownDone result => exact (without_aside rfl c).trans (onShutdown_aside _ result)
  | tick duration => exact Aside.of_eq ⟨id, id⟩ rfl
  | expire id t => exact setTimer_aside c t id
  | timeout id i w t => exact (setTimer_aside c t id).trans (onTimeout_aside _ w.state)

end WsWritingLemmas

open WsWritingLemmas

/-- A step of a connection keeps it stopped if it is, and closable; a step of a
running one stops it or is a step of its outbound side. -/
theorem step_outbound {settings : Settings} {e : WsEvent} (h : step settings c e = some c') :
    Keeps c c' ∧ (c.Closable → c.stopped = false →
      c'.stopped = true ∨ Outbound.Step c.outbound c'.outbound) := by
  have haside : ∀ {e c'}, step settings c e = some c' → (∀ m, e ≠ .send m) →
      (∀ result, e ≠ .wrote result) → Keeps c c' ∧ (c.Closable → c.stopped = false →
        c'.stopped = true ∨ Outbound.Step c.outbound c'.outbound) := by
    intro e c' h hsend hwrote
    have haside := step_aside h hsend hwrote
    refine ⟨haside.keeps, fun hopen _ => ?_⟩
    rcases haside.outbound hopen with hstop | hsame
    · exact Or.inl hstop
    · rw [hsame]
      exact Or.inr .stay
  cases (step_cases h).2 with
  | send m =>
    refine ⟨sendMessage_keeps c m, fun _ hrunning => Or.inr ?_⟩
    cases hm : m.isEmpty with
    | true =>
      unfold sendMessage
      rw [if_pos hm]
      exact .stay
    | false =>
      rw [sendMessage_outbound hrunning hm]
      exact .accept hm
  | wrote result hany =>
    refine ⟨onWriteMessage_keeps (c.without _) result, fun _ _ => ?_⟩
    cases result with
    | error ec => exact Or.inl (handleWriteError_stopped _ ec)
    | ok u =>
      have hcount := countP_eraseP_of_imp (q := WsOp.isWrite) (fun _ h => h) hany
      have hwrite : 0 < c.outbound.messageWrites := countP_pos_of_any (fun _ h => h) hany
      have hwithout : (c.without WsOp.isWrite).outbound =
          { c.outbound with messageWrites := c.outbound.messageWrites - 1 } := by
        simp only [without, outbound, ← hcount, Nat.add_sub_cancel]
      rw [onWriteMessage_outbound, hwithout]
      exact Or.inr (.wrote hwrite)
  | _ => exact haside h nofun nofun

/-- As long as a connection has not stopped its outbound side is ordered. -/
def Writes (c : WsConnection) : Prop := c.Closable ∧ (c.stopped = false → c.outbound.Ordered)

theorem step_writes {settings : Settings} {e : WsEvent} (hwrites : c.Writes)
    (h : step settings c e = some c') : c'.Writes := by
  obtain ⟨hkeeps, hnext⟩ := step_outbound h
  refine ⟨hkeeps.2 hwrites.1, fun hrunning' => ?_⟩
  have hrunning : c.stopped = false := by
    cases hs : c.stopped with
    | false => rfl
    | true => cases (hkeeps.1 hs).symm.trans hrunning'
  rcases hnext hwrites.1 hrunning with hstop | hnext
  · cases hstop.symm.trans hrunning'
  · exact hnext.ordered (hwrites.2 hrunning)

theorem run_writes (settings : Settings) (now : Int) : ((init now).run settings).Writes := by
  refine ⟨fun _ => rfl, fun _ => ?_⟩
  exact ⟨rfl, Nat.zero_le 1, rfl, fun _ => ⟨rfl, rfl⟩, nofun, MessageQueue.valid_init, nofun,
    fun _ => rfl, rfl⟩

/-- The outbound side of a connection that has run and has not stopped is
ordered. -/
theorem run_outbound {settings : Settings} {now : Int} {es : List WsEvent}
    (h : runEvents (step settings) ((init now).run settings) es = some c)
    (hrunning : c.stopped = false) : c.outbound.Ordered :=
  (run_invariant (fun _ _ _ => step_writes) (run_writes settings now) h).2 hrunning

end WsConnection

open Ian.Cluster in
/-- Every message is written once, in order and one at a time: the outbound side
of a cluster connection after `run`, and of a websocket connection, is ordered
in every state it reaches, as long as the connection is neither dropped nor
shutting down and no write has failed. -/
theorem writes_ordered :
    (∀ (handshake : Message) (safeLink : Bool) (es : List Connection.Event) (c : Connection),
      handshake.isEmpty = false →
      runEvents (Connection.step handshake) (Connection.init.run safeLink) es = some c →
      c.dropped = false → c.shuttingDown = false → c.writeFailed = false → c.outbound.Ordered) ∧
    ∀ (settings : Settings) (now : Int) (es : List WsConnection.WsEvent) (c : WsConnection),
      runEvents (WsConnection.step settings) ((WsConnection.init now).run settings) es = some c →
      c.dropped = false → c.shuttingDown = false → c.writeFailed = false → c.outbound.Ordered := by
  constructor
  · intro handshake safeLink es c hhandshake hrun hdropped hshutting hfailed
    have hrunning : c.stopped = false := by
      unfold Connection.stopped
      rw [hdropped, hshutting, hfailed]
      rfl
    exact Connection.run_outbound hhandshake hrun hrunning
  · intro settings now es c hrun hdropped hshutting hfailed
    have hrunning : c.stopped = false := by
      unfold WsConnection.stopped
      rw [hdropped, hshutting, hfailed]
      rfl
    exact WsConnection.run_outbound hrun hrunning

open Ian.Cluster in
/-- Both connections in the middle of a run: one message is written, one is in
flight and one is queued. -/
theorem writes_ordered_midway :
    (∃ es c, runEvents (Connection.step (.fromVector [9])) (Connection.init.run false) es = some c ∧
      c.completed = [.fromVector [1]] ∧ c.outbound.inFlight = [.fromVector [2]] ∧
      c.messageQueue.pending = [.fromVector [3]] ∧ c.outbound.Ordered) ∧
    ∃ es c, runEvents (WsConnection.step defaultSettings)
        ((WsConnection.init 0).run defaultSettings) es = some c ∧
      c.completed = [.fromVector [1]] ∧ c.outbound.inFlight = [.fromVector [2]] ∧
      c.messageQueue.pending = [.fromVector [3]] ∧ c.outbound.Ordered := by
  constructor
  · refine ⟨[.send (.fromVector [1]), .sslHandshake (.ok ()), .handshakeSent (.ok ()),
      .send (.fromVector [2]), .handshakeRead (.ok [1, 0, 0, 0, 9]), .wrote (.ok ()),
      .send (.fromVector [3])], ?_, ?run, ?_, ?_, ?_, writes_ordered.1 _ _ _ _ rfl ?run ?_ ?_ ?_⟩
    case run => rfl
    all_goals rfl
  · refine ⟨[.sslHandshake (.ok ()), .requestRead (.ok ⟨true, []⟩) 1, .wsHandshake (.ok ()),
      .send (.fromVector [1]), .send (.fromVector [2]), .wrote (.ok ()), .send (.fromVector [3])],
      ?_, ?wsRun, ?_, ?_, ?_, writes_ordered.2 _ _ _ _ ?wsRun ?_ ?_ ?_⟩
    case wsRun => rfl
    all_goals rfl

end Ian.Front
