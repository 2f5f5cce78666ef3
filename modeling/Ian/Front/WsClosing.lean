import Ian.Front.Ending
import Ian.Front.WsLifetime
import Ian.Lib.Progress

/-!
# What is left of a closed websocket connection

The handlers of a closed websocket connection come to an end as those of a
cluster connection do (`Cluster/Closing.lean`). But here the waits of its timers
have a pointer to the connection too. Those that were under way when it was
closed have been cancelled; a read that had completed before that sets the
timeout again, and the connection, and its place among the active ones, is kept
until that expires (`closed_client_ends`).
-/

namespace Ian.Front

open Ian.Lib Ian.Common

namespace WsConnection

/-- An operation on the link ends with success. -/
def WsEvent.succeeds : WsEvent → Bool
  | .sslHandshake (.ok _) => true
  | .requestRead (.ok _) _ => true
  | .wsHandshake (.ok _) => true
  | .read (.ok _) => true
  | .wrote (.ok _) => true
  | _ => false

/-- The handler of an operation or of a wait. -/
def WsEvent.isHandler : WsEvent → Bool
  | .send _ => false
  | .tick _ => false
  | .expire _ => false
  | _ => true

/-- The handler of an operation that ends with an error, or of a wait. -/
def WsEvent.isFailure (e : WsEvent) : Bool := e.isHandler && !e.succeeds

end WsConnection

/-- The operation ends with an error. -/
def WsOp.fails (ec : ErrorKind) : WsOp → WsConnection.WsEvent
  | .sslHandshake => .sslHandshake (.error ec)
  | .requestRead => .requestRead (.error ec) 0
  | .wsHandshake => .wsHandshake (.error ec)
  | .read => .read (.error ec)
  | .write _ => .wrote (.error ec)
  | .sslShutdown => .shutdownDone (.error ec)

namespace WsConnection

def waits (c : WsConnection) : List (Wait Unit) := c.timer.waits ++ c.stateTimer.waits

/-- The handlers that are still to run. -/
def outstanding (c : WsConnection) : Nat := c.pending.length + c.waits.length

/-- A connection that has been closed. -/
structure Closed (c : WsConnection) : Prop where
  once : c.teardown.Once
  dropped : c.dropped = true
  fault : c.fault = false

variable {c c' : WsConnection} {settings : Settings}

namespace WsClosingLemmas

open WsWritingLemmas

/-! ## What the handlers start -/

theorem abort_closed (hdropped : c.dropped = true) : c.abort = c := by
  rw [abort, if_pos hdropped]

theorem shutdown_closed (hdropped : c.dropped = true) : c.shutdown = c := by
  unfold shutdown
  rw [if_pos (by rw [hdropped]; rfl)]

theorem handleError_closed (hdropped : c.dropped = true) (ec : ErrorKind) :
    c.handleError ec = c := by
  unfold handleError
  rw [if_pos hdropped]

/-- The queue of a closed connection is empty. -/
theorem writeQueued_closed (hqueue : c.messageQueue = .init) :
    c.writeQueued = { c with isWriting := false } := by
  unfold writeQueued
  rw [hqueue]
  rfl

theorem start_outstanding (c : WsConnection) (op : WsOp) :
    (c.start op).outstanding = c.outstanding + 1 := by
  show (c.pending ++ [op]).length + c.waits.length = _
  rw [List.length_append]
  exact Nat.add_right_comm _ _ _

theorem setTimeout_outstanding (c : WsConnection) (delay : Int) :
    (c.setTimeout delay).outstanding = c.outstanding + 1 := by
  simp [setTimeout, outstanding, waits, Timer.cancel, Timer.expiresFromNow, Timer.asyncWait]
  omega

theorem onSslHandshake_outstanding (hdropped : c.dropped = true)
    (result : Except ErrorKind Unit) : (c.onSslHandshake result).outstanding ≤
      c.outstanding + 2 * (WsEvent.succeeds (.sslHandshake result)).toNat := by
  cases result with
  | error ec => exact Nat.le_of_eq (congrArg outstanding (abort_closed hdropped))
  | ok u => exact Nat.le_succ_of_le (Nat.le_of_eq (start_outstanding c _))

theorem onReadRequest_outstanding (hdropped : c.dropped = true)
    (result : Except ErrorKind Request) (active : Int) :
    (c.onReadRequest settings result active).outstanding ≤
      c.outstanding + 2 * (WsEvent.succeeds (.requestRead result active)).toNat := by
  cases result with
  | error ec => exact Nat.le_of_eq (congrArg outstanding (handleError_closed hdropped ec))
  | ok request =>
    have hrespond : ∀ response : Response,
        ({ c with readBuffer := [] }.respond response).outstanding ≤ c.outstanding + 2 := by
      intro response
      have hsame := shutdown_closed (c := { c with
        readBuffer := []
        responses := c.responses ++ [response] }) hdropped
      exact Nat.le_trans (Nat.le_of_eq (congrArg outstanding hsame)) (Nat.le_add_right _ _)
    rw [WsLifetimeLemmas.onReadRequest_ok]
    split
    · exact hrespond _
    split
    · exact Nat.le_succ_of_le (Nat.le_of_eq (start_outstanding { c with readBuffer := [] } _))
    · exact hrespond _

theorem onWsHandshake_closed (hdropped : c.dropped = true) (result : Except ErrorKind Unit) :
    c.onWsHandshake settings result = c := by
  unfold onWsHandshake
  rw [if_pos hdropped]

theorem takeMessage_outstanding (settings : Settings) (c : WsConnection) (readlen : Nat) :
    (c.takeMessage settings readlen).outstanding ≤ c.outstanding + 2 := by
  have hread := start_outstanding { c with readBuffer := c.readBuffer.drop readlen } .read
  unfold takeMessage
  dsimp only
  split
  · have hset := setTimeout_outstanding
      (start { c with readBuffer := c.readBuffer.drop readlen } .read)
      (seconds (settings.wsTimeout + 5))
    exact Nat.le_of_eq (hset.trans (congrArg (· + 1) hread))
  · exact Nat.le_succ_of_le (Nat.le_of_eq hread)

theorem limited_same (settings : Settings) (c : WsConnection) :
    (c.limited settings).dropped = c.dropped ∧
      (c.limited settings).outstanding = c.outstanding := by
  unfold limited
  split
  · exact ⟨rfl, rfl⟩
  · exact ⟨rfl, rfl⟩

theorem onRead_outstanding (hdropped : c.dropped = true) (result : Except ErrorKind Inbound) :
    (c.onRead settings result).outstanding ≤
      c.outstanding + 2 * (WsEvent.succeeds (.read result)).toNat := by
  cases result with
  | error ec => exact Nat.le_of_eq (congrArg outstanding (handleError_closed hdropped ec))
  | ok inbound =>
    have hless : ∀ {n : Nat}, n = c.outstanding → n ≤ c.outstanding + 2 :=
      fun h => Nat.le_trans (Nat.le_of_eq h) (Nat.le_add_right _ _)
    obtain ⟨hlimited, hsame⟩ := limited_same settings (c.counted inbound)
    rw [onRead_ok]
    split
    · have habort := abort_closed (c := c.counted inbound) hdropped
      rw [habort]
      exact hless rfl
    split
    · rw [shutdown_closed (hlimited.trans hdropped)]
      exact hless hsame
    · have hle := takeMessage_outstanding settings ((c.counted inbound).limited settings)
        inbound.data.length
      rw [hsame] at hle
      exact hle

theorem onWriteMessage_closed (hdropped : c.dropped = true) (hqueue : c.messageQueue = .init)
    (result : Except ErrorKind Unit) :
    (c.onWriteMessage result).pending = c.pending ∧ (c.onWriteMessage result).waits = c.waits := by
  cases result with
  | error ec =>
    have hsame : c.onWriteMessage (.error ec) =
        { c.assignOutbound .empty with writeFailed := true } :=
      handleError_closed (c := { c.assignOutbound .empty with writeFailed := true }) hdropped ec
    rw [hsame]
    exact ⟨rfl, rfl⟩
  | ok u =>
    have hqueued : c.onWriteMessage (.ok u) = { c.assignOutbound .empty with
        completed := c.completed ++ [c.messageOutbound]
        isWriting := false } :=
      writeQueued_closed (c := { c.assignOutbound .empty with
        completed := c.completed ++ [c.messageOutbound] }) hqueue
    rw [hqueued]
    exact ⟨rfl, rfl⟩

theorem onShutdown_closed (hdropped : c.dropped = true) (result : Except ErrorKind Unit) :
    c.onShutdown result = c := by
  rw [onShutdown, if_pos hdropped]

theorem onTimeout_closed (hdropped : c.dropped = true) (state : WaitState) :
    c.onTimeout state = c := by
  rw [onTimeout, if_pos (by rw [hdropped]; rfl)]

/-! ## Steps -/

theorem without_outstanding {p : WsOp → Bool} (hany : c.pending.any p = true) :
    (c.without p).outstanding + 1 = c.outstanding := by
  obtain ⟨op, hop, hp⟩ := List.any_eq_true.mp hany
  show (c.pending.eraseP p).length + c.waits.length + 1 = c.pending.length + c.waits.length
  rw [List.length_eraseP_of_mem hop hp, Nat.add_right_comm,
    Nat.sub_add_cancel (List.length_pos_of_mem hop)]

theorem setTimer_outstanding {id : TimerId} {i : Nat} {w : Wait Unit} {t : Timer Unit}
    (h : (c.getTimer id).take i = some (w, t)) :
    (c.setTimer t id).outstanding + 1 = c.outstanding := by
  have hlength := (Timer.take_spec h).2
  cases id with
  | timer =>
    show c.pending.length + (t.waits ++ c.stateTimer.waits).length + 1 = c.outstanding
    have hless : t.waits.length + 1 = c.timer.waits.length := hlength
    simp only [outstanding, waits, List.length_append]
    omega
  | stateTimer =>
    show c.pending.length + (c.timer.waits ++ t.waits).length + 1 = c.outstanding
    have hless : t.waits.length + 1 = c.stateTimer.waits.length := hlength
    simp only [outstanding, waits, List.length_append]
    omega

/-- A handler runs, and it starts others only if its operation has ended with
success. -/
theorem step_outstanding {e : WsEvent} (hclosed : Closed c) (hhandler : e.isHandler = true)
    (h : step settings c e = some c') :
    c'.outstanding + 1 ≤ c.outstanding + 2 * e.succeeds.toNat := by
  have hqueue : c.messageQueue = .init := hclosed.once.drained (by
    show (c.dropped || c.shuttingDown) = true
    rw [hclosed.dropped, Bool.true_or])
  have hless : ∀ {p : WsOp → Bool} {n n' : Nat}, c.pending.any p = true →
      n' ≤ (c.without p).outstanding + n → n' + 1 ≤ c.outstanding + n := by
    intro p n n' hany hle
    rw [← without_outstanding hany, Nat.add_right_comm]
    exact Nat.succ_le_succ hle
  have hsame : ∀ {n n' m : Nat}, n' = n → n' ≤ n + m :=
    fun h => Nat.le_trans (Nat.le_of_eq h) (Nat.le_add_right _ _)
  cases (step_cases h).2 with
  | send message => cases hhandler
  | sslHandshake result hany =>
    exact hless hany (onSslHandshake_outstanding (c := c.without _) hclosed.dropped result)
  | requestRead result active hany =>
    exact hless hany (onReadRequest_outstanding (c := c.without _) hclosed.dropped result active)
  | wsHandshake result hany =>
    exact hless hany (hsame (congrArg outstanding
      (onWsHandshake_closed (c := c.without _) hclosed.dropped result)))
  | read result hany =>
    exact hless hany (onRead_outstanding (c := c.without _) hclosed.dropped result)
  | wrote result hany =>
    obtain ⟨hpending, hwaits⟩ :=
      onWriteMessage_closed (c := c.without WsOp.isWrite) hclosed.dropped hqueue result
    refine hless hany (hsame ?_)
    rw [outstanding, hpending, hwaits, outstanding]
  | shutdownDone result hany =>
    exact hless hany (hsame (congrArg outstanding
      (onShutdown_closed (c := c.without (· == .sslShutdown)) hclosed.dropped result)))
  | tick duration => cases hhandler
  | expire id t ht => cases hhandler
  | timeout id i w t ht =>
    have hdropped : (c.setTimer t id).dropped = true := by
      cases id <;> exact hclosed.dropped
    rw [onTimeout_closed hdropped, setTimer_outstanding ht]
    exact Nat.le_add_right _ _

theorem step_closed {e : WsEvent} (hclosed : Closed c) (h : step settings c e = some c') :
    Closed c' where
  once := step_once hclosed.once h
  dropped := ((step_teardown hclosed.once h).final hclosed.once).2.dropped hclosed.dropped
  fault := (step_delivered hclosed.once h).2

/-- A failure sets no timer. -/
theorem step_waits {e : WsEvent} (hclosed : Closed c) (hfailure : e.isFailure = true)
    (h : step settings c e = some c') : c'.waits ⊆ c.waits := by
  have hqueue : c.messageQueue = .init := hclosed.once.drained (by
    show (c.dropped || c.shuttingDown) = true
    rw [hclosed.dropped, Bool.true_or])
  have hsame : ∀ {p : WsOp → Bool} {d : WsConnection}, d = c.without p → d.waits ⊆ c.waits := by
    rintro p _ rfl
    exact List.Subset.refl c.waits
  cases (step_cases h).2 with
  | send message => cases hfailure
  | sslHandshake result hany =>
    cases result with
    | error ec => exact hsame (abort_closed (c := c.without _) hclosed.dropped)
    | ok u => cases hfailure
  | requestRead result active hany =>
    cases result with
    | error ec => exact hsame (handleError_closed (c := c.without _) hclosed.dropped ec)
    | ok request => cases hfailure
  | wsHandshake result hany =>
    exact hsame (onWsHandshake_closed (c := c.without _) hclosed.dropped result)
  | read result hany =>
    cases result with
    | error ec => exact hsame (handleError_closed (c := c.without _) hclosed.dropped ec)
    | ok inbound => cases hfailure
  | wrote result hany =>
    rw [(onWriteMessage_closed (c := c.without WsOp.isWrite) hclosed.dropped hqueue result).2]
    exact List.Subset.refl c.waits
  | shutdownDone result hany =>
    exact hsame (onShutdown_closed (c := c.without _) hclosed.dropped result)
  | tick duration => cases hfailure
  | expire id t ht => cases hfailure
  | timeout id i w t ht =>
    have hless := Timer.take_subset ht
    cases id with
    | timer =>
      rw [onTimeout_closed (c := c.setTimer t .timer) hclosed.dropped]
      exact List.append_subset.mpr ⟨List.subset_append_of_subset_left _ hless,
        List.subset_append_right _ _⟩
    | stateTimer =>
      rw [onTimeout_closed (c := c.setTimer t .stateTimer) hclosed.dropped]
      exact List.append_subset.mpr ⟨List.subset_append_left _ _,
        List.subset_append_of_subset_right _ hless⟩

/-- Each outstanding operation can end with an error. -/
theorem fails_step (settings : Settings) (hfault : c.fault = false) {op : WsOp}
    (hop : op ∈ c.pending) (ec : ErrorKind) : ∃ c', step settings c (op.fails ec) = some c' := by
  have hcomplete : ∀ {p : WsOp → Bool} {f : WsConnection → WsConnection}, p op = true →
      ∃ c', (c.complete p).map f = some c' := by
    intro p f hp
    have hany : c.pending.any p = true := List.any_eq_true.mpr ⟨op, hop, hp⟩
    rw [complete, if_pos hany]
    exact ⟨_, rfl⟩
  unfold step
  rw [if_neg (by rw [hfault]; exact Bool.false_ne_true)]
  cases op with
  | sslHandshake => exact hcomplete rfl
  | requestRead => exact hcomplete rfl
  | wsHandshake => exact hcomplete rfl
  | read => exact hcomplete rfl
  | write data => exact hcomplete rfl
  | sslShutdown => exact hcomplete rfl

/-- The handler of a wait that has ended can be run. -/
theorem timeout_step (settings : Settings) (hfault : c.fault = false) {w : Wait Unit}
    (hw : w ∈ c.waits) (hended : w.state ≠ .waiting) :
    ∃ id i c', step settings c (.timeout id i) = some c' := by
  have htake : ∃ id i t, (c.getTimer id).take i = some (w, t) := by
    rcases List.mem_append.mp hw with hw | hw
    · exact ⟨.timer, Timer.take_of_ended hw hended⟩
    · exact ⟨.stateTimer, Timer.take_of_ended hw hended⟩
  obtain ⟨id, i, t, htake⟩ := htake
  refine ⟨id, i, (c.setTimer t id).onTimeout w.state, ?_⟩
  unfold step
  rw [if_neg (by rw [hfault]; exact Bool.false_ne_true)]
  dsimp only
  rw [htake]
  rfl

/-- No handler can be run: what is left waits for the time of a timer. -/
def Rests (c : WsConnection) : Prop := c.pending = [] ∧ ∀ w ∈ c.waits, w.state = .waiting

/-- Otherwise some handler is ready. -/
theorem failure_step (settings : Settings) (hfault : c.fault = false) (hrests : ¬Rests c) :
    ∃ e c', WsEvent.isFailure e = true ∧ step settings c e = some c' := by
  by_cases hpending : c.pending = []
  · have hended : ∃ w ∈ c.waits, w.state ≠ .waiting := by
      by_contra hnone
      exact hrests ⟨hpending, fun w hw => by_contra fun hstate => hnone ⟨w, hw, hstate⟩⟩
    obtain ⟨w, hw, hstate⟩ := hended
    obtain ⟨id, i, c', hstep⟩ := timeout_step settings hfault hw hstate
    exact ⟨.timeout id i, c', rfl, hstep⟩
  · obtain ⟨op, ops, hops⟩ := List.exists_cons_of_ne_nil hpending
    obtain ⟨c', hstep⟩ := fails_step settings hfault (hops ▸ List.mem_cons_self) .canceled
    exact ⟨op.fails .canceled, c', by cases op <;> rfl, hstep⟩

theorem closing_windsDown (settings : Settings) :
    WindsDown (rationed (step settings) WsEvent.succeeds) (fun _ e => WsEvent.isHandler e = true)
      (fun s => Closed s.1) (fun s => Rests s.1)
      (fun s : WsConnection × Nat => s.1.outstanding + 2 * s.2) := by
  have hkeeps : ∀ (c : WsConnection) (e : WsEvent) (c' : WsConnection), Closed c →
      e.isHandler = true → step settings c e = some c' →
        Closed c' ∧ c'.outstanding + 1 ≤ c.outstanding + 2 * e.succeeds.toNat :=
    fun c e c' hclosed hhandler h => ⟨step_closed hclosed h, step_outstanding hclosed hhandler h⟩
  have hgoesOn : ∀ c : WsConnection, Closed c → ¬Rests c → ∃ (e : WsEvent) (c' : WsConnection),
      e.isHandler = true ∧ e.succeeds = false ∧ step settings c e = some c' := by
    intro c hclosed hrests
    obtain ⟨e, c', hfailure, hstep⟩ := failure_step settings hclosed.fault hrests
    obtain ⟨hhandler, hfails⟩ := (Bool.and_eq_true _ _).mp hfailure
    exact ⟨e, c', hhandler, by simpa using hfails, hstep⟩
  exact WindsDown.rationed (C := fun _ e => WsEvent.isHandler e = true) 2 hkeeps hgoesOn

/-- Where no wait is under way, failures leave nothing at all. -/
theorem failures_windDown (settings : Settings) :
    WindsDown (step settings) (fun _ e => WsEvent.isFailure e = true)
      (fun c => Closed c ∧ ∀ w ∈ c.waits, w.state ≠ .waiting) (fun c => c.outstanding = 0)
      outstanding where
  keeps c e c' h hfailure hstep :=
    ⟨step_closed h.1 hstep, fun w hw => h.2 w (step_waits h.1 hfailure hstep hw)⟩
  lowers c e c' h hfailure hstep := by
    obtain ⟨hhandler, hfails⟩ := (Bool.and_eq_true _ _).mp hfailure
    have hless := step_outstanding h.1 hhandler hstep
    have hunlucky : e.succeeds = false := by simpa using hfails
    rw [hunlucky] at hless
    exact hless
  goesOn c h hmore := by
    refine failure_step settings h.1.fault fun hrests => hmore ?_
    have hnone : c.waits = [] :=
      List.eq_nil_iff_forall_not_mem.mpr fun w hw => h.2 w hw (hrests.2 w hw)
    rw [outstanding, hrests.1, hnone]
    rfl

/-- A run that has closed the connection. -/
theorem run_closed {now : Int} {es : List WsEvent}
    (h : runEvents (step settings) ((init now).run settings) es = some c)
    (hdropped : c.dropped = true) : Closed c := by
  have hkept : c.teardown.Once ∧ c.fault = false := run_invariant
    (I := fun c => c.teardown.Once ∧ c.fault = false)
    (fun _ _ _ hI hstep => ⟨step_once hI.1 hstep, (step_delivered hI.1 hstep).2⟩)
    ⟨run_once settings now, rfl⟩ h
  exact ⟨hkept.1, hdropped, hkept.2⟩

end WsClosingLemmas

end WsConnection

open WsConnection WsClosingLemmas in
/-- When a websocket connection has been closed and no more than `k` of its
operations complete with success yet, each run of its handlers ends, after at most
one for each operation and wait that is outstanding and `2 * k` more, and what is
left is a timeout that a late message has set. If no wait is under way and all
operations fail, nothing is left. -/
theorem closed_client_ends (settings : Settings) (now : Int) (es : List WsEvent) (c : WsConnection)
    (k : Nat) (h : runEvents (step settings) ((init now).run settings) es = some c)
    (hdropped : c.dropped = true) :
    EndsWithin (rationed (step settings) WsEvent.succeeds) (fun _ e => e.isHandler = true)
      (fun s => Rests s.1) (c, k) (c.outstanding + 2 * k) ∧
    ((∀ w ∈ c.waits, w.state ≠ .waiting) →
      EndsWithin (step settings) (fun _ e => e.isFailure = true) (fun c => c.outstanding = 0) c
        c.outstanding) := by
  have hclosed := run_closed h hdropped
  exact ⟨(closing_windsDown settings).endsWithin (s := (c, k)) hclosed,
    fun hwaits => (failures_windDown settings).endsWithin ⟨hclosed, hwaits⟩⟩

/-- A client is reset while a message to it is being written. -/
def resetClient : List WsConnection.WsEvent :=
  [.sslHandshake (.ok ()), .requestRead (.ok ⟨true, []⟩) 1, .wsHandshake (.ok ()),
    .send (.fromVector [1]), .wrote (.error .reset)]

open WsConnection in
theorem closed_client_ends_reset :
    ∃ c, runEvents (step defaultSettings) ((init 0).run defaultSettings) resetClient = some c ∧
      c.outstanding = 3 ∧ EndsWithin (step defaultSettings) (fun _ e => e.isFailure = true)
        (fun c => c.outstanding = 0) c 3 := by
  refine ⟨_, rfl, rfl, (closed_client_ends defaultSettings 0 resetClient _ 0 ?run rfl).2 ?waits⟩
  case run => rfl
  case waits => decide +kernel

end Ian.Front
