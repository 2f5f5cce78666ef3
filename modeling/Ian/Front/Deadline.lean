import Ian.Front.Ending

/-!
# Deadlines of websocket connections

`run` and each successful step of the handshake arm `timer_`, and a message
read arms it again in time, so that a silent client is aborted some day.
`shutdown` however cancels both timers and waits for the SSL shutdown without a
new deadline (`deadline_iff`): a client that does not answer it holds the
connection for ever.
-/

namespace Ian.Front

open Ian.Lib Ian.Common

namespace WsConnection

/-- A wait on one of the timers will run `on_timeout` without an error, or its
handler is queued. -/
def hasDeadline (c : WsConnection) : Bool := c.timer.live || c.stateTimer.live

/-- A connection that has not been closed has a deadline. -/
def Deadline (c : WsConnection) : Prop := c.dropped = false → c.hasDeadline = true

instance (c : WsConnection) : Decidable (Deadline c) := inferInstanceAs (Decidable (_ → _))

/-- The handler of a timer that has expired is queued. -/
def timerFired (c : WsConnection) : Bool := c.timer.fired || c.stateTimer.fired

/-- The handler of the event calls `shutdown`, whatever the state of the
connection. -/
def callsShutdown (settings : Settings) (c : WsConnection) : WsEvent → Bool
  | .requestRead (.error .other) _ => true
  | .requestRead (.ok request) active =>
    decide (active > settings.connectionLimitSoft) || !request.isUpgrade
  | .wsHandshake (.error _) => true
  | .read (.error .other) => true
  | .read (.ok inbound) => !(c.counted inbound).rateKill settings && !inbound.gotBinary
  | .wrote (.error .other) => true
  | _ => false

/-- The handler of the event calls `shutdown` and this has an effect. -/
def shutsDown (settings : Settings) (c : WsConnection) (e : WsEvent) : Bool :=
  !c.terminated && c.callsShutdown settings e

/-- The connection is not shut down, or a queued handler of an expired timer
will abort it anyway. -/
def KeepsDeadline (settings : Settings) (c : WsConnection) (e : WsEvent) : Prop :=
  c.shutsDown settings e = true → c.timerFired = true

instance (settings : Settings) (c : WsConnection) (e : WsEvent) :
    Decidable (KeepsDeadline settings c e) := inferInstanceAs (Decidable (_ → _))

/-- What a handler does to the deadline: `called` says whether it calls
`shutdown`. -/
inductive Timed (c : WsConnection) (called : Bool) (c' : WsConnection) : Prop where
  | kept (hdropped : c'.dropped = c.dropped) (hlive : c.hasDeadline = true → c'.hasDeadline = true)
    (hup : called = false ∨ c.terminated = true)
  | dropped (hdropped : c'.dropped = true) (hup : called = false)
  | armed (hlive : c'.timer.live = true) (hup : called = false)
  | down (hrunning : c.terminated = false) (hdropped : c'.dropped = false)
    (htimer : c'.timer = c.timer.cancel) (hstate : c'.stateTimer = c.stateTimer.cancel)
    (hcalled : called = true)

variable {c c' c1 : WsConnection} {settings : Settings}

theorem Timed.unchanged (c : WsConnection) : Timed c false c := .kept rfl id (Or.inl rfl)

/-- Nothing in between concerns the timers or the flags. -/
theorem Timed.of_same {called : Bool} (h : Timed c1 called c') (htimer : c1.timer = c.timer)
    (hstate : c1.stateTimer = c.stateTimer) (hdropped : c1.dropped = c.dropped)
    (hshutting : c1.shuttingDown = c.shuttingDown) : Timed c called c' := by
  have hdeadline : c1.hasDeadline = c.hasDeadline := by
    unfold hasDeadline
    rw [htimer, hstate]
  have hterminated : c1.terminated = c.terminated := by
    unfold terminated
    rw [hdropped, hshutting]
  cases h with
  | kept hd hlive hup =>
    rw [hdeadline] at hlive
    rw [hterminated] at hup
    exact .kept (hd.trans hdropped) hlive hup
  | dropped hd hup => exact .dropped hd hup
  | armed hlive hup => exact .armed hlive hup
  | down hrunning hd ht hs hcalled =>
    exact .down (hterminated.symm.trans hrunning) hd (htimer ▸ ht) (hstate ▸ hs) hcalled

namespace DeadlineLemmas

theorem abort_dropped (c : WsConnection) : c.abort.dropped = true := by
  unfold abort
  split
  · assumption
  · rfl

theorem abort_timed (c : WsConnection) : Timed c false c.abort := .dropped (abort_dropped c) rfl

theorem shutdown_timed (hopen : c.socketOpen = !c.dropped) : Timed c true c.shutdown := by
  unfold shutdown
  split
  · next hflags => exact .kept rfl id (Or.inr hflags)
  · next hflags =>
    have hdropped : c.dropped = false := by
      cases hd : c.dropped with
      | false => rfl
      | true => simp [hd] at hflags
    dsimp only
    rw [if_neg (by simp [cancelAll, hopen, hdropped])]
    exact .down (Bool.eq_false_iff.mpr hflags) hdropped rfl rfl rfl

theorem setTimeout_live (c : WsConnection) (delay : Int) :
    (c.setTimeout delay).timer.live = true := Timer.asyncWait_live _ _

theorem handleError_timed (hopen : c.socketOpen = !c.dropped) (ec : ErrorKind) :
    Timed c (ec == .other) (c.handleError ec) := by
  unfold handleError
  split
  · next hdropped =>
    have hterminated : c.terminated = true := by
      unfold terminated
      rw [hdropped]
      rfl
    exact .kept rfl id (Or.inr hterminated)
  cases ec with
  | reset => exact abort_timed c
  | canceled => exact Timed.unchanged c
  | other => exact shutdown_timed hopen

/-! ## Handlers -/

theorem onSslHandshake_timed (c : WsConnection) (result : Except ErrorKind Unit) :
    Timed c false (c.onSslHandshake result) := by
  cases result with
  | error ec => exact abort_timed c
  | ok u => exact .kept rfl id (Or.inl rfl)

theorem onReadRequest_timed (hopen : c.socketOpen = !c.dropped)
    (result : Except ErrorKind Request) (active : Int) :
    Timed c (c.callsShutdown settings (.requestRead result active))
      (c.onReadRequest settings result active) := by
  cases result with
  | error ec =>
    have herror := handleError_timed hopen ec
    cases ec <;> exact herror
  | ok request =>
    have hrespond : ∀ c1 : WsConnection, c1.timer = c.timer → c1.stateTimer = c.stateTimer →
        c1.dropped = c.dropped → c1.shuttingDown = c.shuttingDown →
        c1.socketOpen = c.socketOpen → ∀ response, Timed c true (c1.respond response) := by
      intro c1 ht hs hd hsd hso response
      have hopen1 : c1.socketOpen = !c1.dropped := by rw [hso, hd, hopen]
      exact (shutdown_timed (c := { c1 with responses := c1.responses ++ [response] })
        hopen1).of_same ht hs hd hsd
    -- The buffer is cleared or empty already.
    obtain ⟨c1, hc1, ht, hs, hd, hsd, hso⟩ : ∃ c1 : WsConnection, c1 =
        (if 0 < (c.readBuffer ++ request.leftover).length then { c with readBuffer := [] }
          else { c with readBuffer := c.readBuffer ++ request.leftover }) ∧
        c1.timer = c.timer ∧ c1.stateTimer = c.stateTimer ∧ c1.dropped = c.dropped ∧
        c1.shuttingDown = c.shuttingDown ∧ c1.socketOpen = c.socketOpen := by
      refine ⟨_, rfl, ?_⟩
      split <;> exact ⟨rfl, rfl, rfl, rfl, rfl⟩
    have hcalls : c.callsShutdown settings (.requestRead (.ok request) active) =
        (decide (active > settings.connectionLimitSoft) || !request.isUpgrade) := rfl
    unfold onReadRequest
    dsimp only
    rw [← hc1, hcalls]
    split
    · next hfull =>
      rw [decide_eq_true hfull, Bool.true_or]
      exact hrespond c1 ht hs hd hsd hso _
    next hroom =>
    rw [decide_eq_false hroom, Bool.false_or]
    split
    · next hupgrade =>
      rw [hupgrade]
      have hstart : Timed c1 false (c1.start .wsHandshake) := .kept rfl id (Or.inl rfl)
      exact hstart.of_same ht hs hd hsd
    · next hplain =>
      rw [Bool.eq_false_iff.mpr hplain]
      exact hrespond c1 ht hs hd hsd hso _

theorem onWsHandshake_timed (hopen : c.socketOpen = !c.dropped)
    (result : Except ErrorKind Unit) :
    Timed c (c.callsShutdown settings (.wsHandshake result)) (c.onWsHandshake settings result) := by
  unfold onWsHandshake
  split
  · next hdropped =>
    have hterminated : c.terminated = true := by
      unfold terminated
      rw [hdropped]
      rfl
    exact .kept rfl id (Or.inr hterminated)
  cases result with
  | error ec => exact shutdown_timed hopen
  | ok u => exact .armed (setTimeout_live { c with upgraded := true } _) rfl

theorem takeMessage_timed (settings : Settings) (c : WsConnection) (readlen : Nat) :
    Timed c false (c.takeMessage settings readlen) := by
  unfold takeMessage
  dsimp only
  split
  · exact .armed (setTimeout_live _ _) rfl
  · exact .kept rfl id (Or.inl rfl)

theorem onRead_timed (hopen : c.socketOpen = !c.dropped) (result : Except ErrorKind Inbound) :
    Timed c (c.callsShutdown settings (.read result)) (c.onRead settings result) := by
  cases result with
  | error ec =>
    have herror := handleError_timed hopen ec
    cases ec <;> exact herror
  | ok inbound =>
    have hcalls : c.callsShutdown settings (.read (.ok inbound)) =
        (!(c.counted inbound).rateKill settings && !inbound.gotBinary) := rfl
    obtain ⟨c1, hc1, ht, hs, hd, hsd, hso⟩ : ∃ c1, c1 = (c.counted inbound).limited settings ∧
        c1.timer = c.timer ∧ c1.stateTimer = c.stateTimer ∧ c1.dropped = c.dropped ∧
        c1.shuttingDown = c.shuttingDown ∧ c1.socketOpen = c.socketOpen := by
      refine ⟨_, rfl, ?_⟩
      unfold limited
      split <;> exact ⟨rfl, rfl, rfl, rfl, rfl⟩
    rw [onRead_ok, hcalls, ← hc1]
    split
    · next hkill =>
      rw [hkill]
      exact (abort_timed (c.counted inbound)).of_same rfl rfl rfl rfl
    next hpass =>
    rw [Bool.eq_false_iff.mpr hpass, Bool.not_false, Bool.true_and]
    split
    · next htext =>
      rw [htext]
      have hopen1 : c1.socketOpen = !c1.dropped := by rw [hso, hd, hopen]
      exact (shutdown_timed hopen1).of_same ht hs hd hsd
    · next hbinary =>
      rw [Bool.eq_false_iff.mpr hbinary]
      exact (takeMessage_timed settings c1 _).of_same ht hs hd hsd

theorem doWriteMessage_timed (c : WsConnection) (m : Message) :
    Timed c false (c.doWriteMessage m) := by
  unfold doWriteMessage
  dsimp only
  split <;> exact .kept rfl id (Or.inl rfl)

theorem sendMessage_timed (c : WsConnection) (m : Message) : Timed c false (c.sendMessage m) := by
  unfold sendMessage sendMessageBody
  dsimp only
  split
  · exact Timed.unchanged c
  split
  · exact Timed.unchanged c
  split
  · exact (doWriteMessage_timed { c with accepted := c.accepted ++ [m], isWriting := true }
      m).of_same rfl rfl rfl rfl
  split <;> exact .kept rfl id (Or.inl rfl)

theorem onWriteMessage_timed (hopen : c.socketOpen = !c.dropped)
    (result : Except ErrorKind Unit) :
    Timed c (c.callsShutdown settings (.wrote result)) (c.onWriteMessage result) := by
  cases result with
  | error ec =>
    have herror := (handleError_timed
      (c := { c.assignOutbound .empty with writeFailed := true }) hopen ec).of_same (c := c)
      rfl rfl rfl rfl
    cases ec <;> exact herror
  | ok u =>
    unfold onWriteMessage writeQueued
    dsimp only
    split
    · exact .kept rfl id (Or.inl rfl)
    · exact .kept rfl id (Or.inl rfl)
    · exact (doWriteMessage_timed _ _).of_same rfl rfl rfl rfl

theorem onShutdown_timed (c : WsConnection) (result : Except ErrorKind Unit) :
    Timed c false (c.onShutdown result) := by
  unfold onShutdown
  split
  · exact Timed.unchanged c
  · exact .dropped rfl rfl

theorem setTimer_timed {t : Timer Unit} {id : TimerId} (hlive : t.live = (c.getTimer id).live) :
    Timed c false (c.setTimer t id) := by
  cases id with
  | timer =>
    refine .kept rfl (fun h => ?_) (Or.inl rfl)
    show (t.live || c.stateTimer.live) = true
    rw [hlive]
    exact h
  | stateTimer =>
    refine .kept rfl (fun h => ?_) (Or.inl rfl)
    show (c.timer.live || t.live) = true
    rw [hlive]
    exact h

/-- The handler of an expired wait aborts the connection; that of an aborted
wait was no deadline. -/
theorem timeout_timed {id : TimerId} {i : Nat} {w : Wait Unit} {t : Timer Unit}
    (h : (c.getTimer id).take i = some (w, t)) :
    Timed c false ((c.setTimer t id).onTimeout w.state) := by
  unfold onTimeout
  by_cases haborted : w.state = .aborted
  · rw [if_pos (by simp [haborted])]
    exact setTimer_timed (Timer.take_live h haborted)
  · split
    · next hflags =>
      have hdropped : (c.setTimer t id).dropped = true := by simpa [haborted] using hflags
      exact .dropped hdropped rfl
    · exact .dropped (abort_dropped _) rfl

end DeadlineLemmas

open DeadlineLemmas WsWritingLemmas

theorem step_timed {e : WsEvent} (honce : c.teardown.Once) (h : step settings c e = some c') :
    Timed c (c.callsShutdown settings e) c' := by
  have hopen : c.socketOpen = !c.dropped := honce.socket
  -- A completed operation is no timer.
  have hwithout : ∀ {p called c'}, Timed (c.without p) called c' → Timed c called c' :=
    fun h => h.of_same rfl rfl rfl rfl
  cases (step_cases h).2 with
  | send message => exact sendMessage_timed c message
  | sslHandshake result => exact hwithout (onSslHandshake_timed _ result)
  | requestRead result active =>
    exact hwithout (onReadRequest_timed (c := c.without _) hopen result active)
  | wsHandshake result => exact hwithout (onWsHandshake_timed (c := c.without _) hopen result)
  | read result => exact hwithout (onRead_timed (c := c.without _) hopen result)
  | wrote result => exact hwithout (onWriteMessage_timed (c := c.without _) hopen result)
  | shutdownDone result => exact hwithout (onShutdown_timed _ result)
  | tick duration => exact .kept rfl id (Or.inl rfl)
  | expire id t ht => exact setTimer_timed (Timer.expire_live ht)
  | timeout id i w t ht => exact timeout_timed ht

/-- A step keeps the deadline exactly if it does not shut the connection down
before a timer has fired. -/
theorem step_deadline {e : WsEvent} (honce : c.teardown.Once) (hdeadline : c.Deadline)
    (h : step settings c e = some c') : c'.Deadline ↔ KeepsDeadline settings c e := by
  have hup : c.callsShutdown settings e = false ∨ c.terminated = true →
      KeepsDeadline settings c e := by
    intro hor hshuts
    unfold shutsDown at hshuts
    rcases hor with hcalls | hterminated
    · simp [hcalls] at hshuts
    · simp [hterminated] at hshuts
  cases step_timed honce h with
  | kept hdropped hlive hor =>
    exact ⟨fun _ => hup hor, fun _ hd => hlive (hdeadline (hdropped.symm.trans hd))⟩
  | dropped hdropped hcalls =>
    exact ⟨fun _ => hup (Or.inl hcalls), fun _ hd => (nomatch hdropped.symm.trans hd)⟩
  | armed hlive hcalls =>
    refine ⟨fun _ => hup (Or.inl hcalls), fun _ _ => ?_⟩
    unfold hasDeadline
    rw [hlive]
    rfl
  | down hrunning hdropped htimer hstate hcalled =>
    have hshuts : c.shutsDown settings e = true := by
      unfold shutsDown
      rw [hrunning, hcalled]
      rfl
    have hfired : c'.hasDeadline = c.timerFired := by
      unfold hasDeadline timerFired
      rw [htimer, hstate, Timer.cancel_live, Timer.cancel_live]
    constructor
    · intro hlive _
      rw [← hfired]
      exact hlive hdropped
    · intro hkeeps _
      rw [hfired]
      exact hkeeps hshuts

end WsConnection

open WsConnection

/-- The connection has a deadline throughout exactly those runs that never shut
it down before a timer has fired. -/
theorem deadline_iff (settings : Settings) (now : Int) (es : List WsEvent) (c : WsConnection)
    (h : runEvents (step settings) ((init now).run settings) es = some c) :
    AllStates (step settings) Deadline ((init now).run settings) es ↔
      AllSteps (step settings) (KeepsDeadline settings) ((init now).run settings) es :=
  allStates_iff (I := fun s => s.teardown.Once) (fun _ _ _ => step_once)
    (fun _ _ _ => step_deadline) (run_once settings now) (fun _ => rfl) h

/-- A client that sends a message and then goes silent is timed out. -/
theorem deadline_iff_timeout :
    AllStates (step defaultSettings) Deadline ((init 0).run defaultSettings)
      [.sslHandshake (.ok ()), .requestRead (.ok ⟨true, []⟩) 1, .wsHandshake (.ok ()),
        .read (.ok ⟨[7], true⟩), .tick 40000000000, .expire .timer, .timeout .timer 1] :=
  (deadline_iff defaultSettings 0 _ _ rfl).mpr (by decide)

/-- A client that is denied because there are too many, or whose request is a
plain one, and that does not answer the SSL shutdown: nothing is left that would
ever run a handler. -/
theorem silent_client_stays :
    (∃ c, runEvents (step defaultSettings) ((init 0).run defaultSettings)
        [.sslHandshake (.ok ()), .requestRead (.ok ⟨true, []⟩) 1001] = some c ∧
      c.dropped = false ∧ c.hasDeadline = false ∧ c.pending = [.sslShutdown] ∧ ¬c.Deadline) ∧
    ∃ c, runEvents (step defaultSettings) ((init 0).run defaultSettings)
        [.sslHandshake (.ok ()), .requestRead (.ok ⟨false, []⟩) 1] = some c ∧
      c.dropped = false ∧ c.hasDeadline = false ∧ c.pending = [.sslShutdown] ∧ ¬c.Deadline := by
  constructor
  · exact ⟨_, rfl, rfl, rfl, rfl, by decide⟩
  · exact ⟨_, rfl, rfl, rfl, rfl, by decide⟩

end Ian.Front
