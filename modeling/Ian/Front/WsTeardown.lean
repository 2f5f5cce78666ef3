import Ian.Cluster.Teardown
import Ian.Front.WsWriting

/-!
# How a websocket connection ends

The websocket connection ends by the discipline of the cluster connection:
each step in its strand is a step of `Teardown` (`step_teardown`). A step that
is neither a send nor the completion of a write is a quiet one (`step_quiet`).
-/

namespace Ian.Front

open Ian.Lib Ian.Common

namespace WsConnection

/-! ## The cases of `on_read` -/

/-- `on_read` has counted a message. -/
def counted (c : WsConnection) (inbound : Inbound) : WsConnection :=
  { c with
    readBuffer := c.readBuffer ++ inbound.data
    rateLimitMessages := c.rateLimitMessages + 1
    rateLimitBytes := (c.rateLimitBytes + inbound.data.length) % 2 ^ 64 }

/-- A counter is above its limit. -/
def overLimit (settings : Settings) (c : WsConnection) : Bool :=
  c.rateLimitMessages > settings.rateLimitMessages ||
    c.rateLimitBytes > (settings.rateLimitBytes % 2 ^ 64).toNat

/-- `check_rate_limit` aborts the connection. -/
def rateKill (settings : Settings) (c : WsConnection) : Bool :=
  c.overLimit settings && !decide (c.now - c.rateLimitStart > seconds 1)

/-- What `check_rate_limit` leaves of a connection it does not abort. -/
def limited (settings : Settings) (c : WsConnection) : WsConnection :=
  if c.overLimit settings then
    { c with rateLimitStart := c.now, rateLimitMessages := 0, rateLimitBytes := 0 }
  else c

/-- The end of `on_read`: take the message off the buffer, read on, refresh the
timeout and process the message. -/
def takeMessage (settings : Settings) (c : WsConnection) (readlen : Nat) : WsConnection :=
  let buf := c.readBuffer.take readlen
  let c := { c with readBuffer := c.readBuffer.drop readlen }.start .read
  let c :=
    if c.timer.expiry - c.now ≤ seconds settings.wsTimeout then
      c.setTimeout (seconds (settings.wsTimeout + 5))
    else c
  { c with delivered := c.delivered ++ [.fromVector buf] }

variable {c c' : WsConnection} {settings : Settings}

theorem checkRateLimit_eq (settings : Settings) (c : WsConnection) :
    c.checkRateLimit settings =
      if c.rateKill settings then (true, c.abort) else (false, c.limited settings) := by
  have hcheck : c.checkRateLimit settings =
      if c.overLimit settings then
        if c.now - c.rateLimitStart > seconds 1 then
          (false, { c with rateLimitStart := c.now, rateLimitMessages := 0, rateLimitBytes := 0 })
        else (true, c.abort)
      else (false, c) := rfl
  rw [hcheck]
  unfold rateKill limited
  by_cases hover : c.overLimit settings = true
  · rw [if_pos hover, if_pos hover, hover, Bool.true_and]
    split
    · next hlate =>
      rw [decide_eq_true hlate]
      rfl
    · next hsoon =>
      rw [decide_eq_false hsoon]
      rfl
  · rw [if_neg hover, if_neg hover, if_neg (by simp [hover])]

theorem checkRateLimit_fst (settings : Settings) (c : WsConnection) :
    (c.checkRateLimit settings).1 = c.rateKill settings := by
  rw [checkRateLimit_eq]
  cases c.rateKill settings with
  | true => rfl
  | false => rfl

theorem onRead_ok (settings : Settings) (c : WsConnection) (inbound : Inbound) :
    c.onRead settings (.ok inbound) =
      if (c.counted inbound).rateKill settings then (c.counted inbound).abort
      else if !inbound.gotBinary then ((c.counted inbound).limited settings).shutdown
      else ((c.counted inbound).limited settings).takeMessage settings inbound.data.length := by
  have hlimit := checkRateLimit_eq settings (c.counted inbound)
  by_cases hkill : (c.counted inbound).rateKill settings = true
  · rw [if_pos hkill] at hlimit ⊢
    unfold counted at hlimit
    unfold onRead
    dsimp only
    rw [hlimit]
    rfl
  · rw [if_neg hkill] at hlimit ⊢
    unfold counted at hlimit
    unfold onRead
    dsimp only
    rw [hlimit]
    rfl

/-! ## Teardown -/

def teardown (c : WsConnection) : Teardown where
  dropped := c.dropped
  shuttingDown := c.shuttingDown
  socketOpen := c.socketOpen
  closes := c.closes
  shutdowns := c.started.countP (· == .sslShutdown)
  openShutdowns := c.pending.countP (· == .sslShutdown)
  writes := c.started.countP WsOp.isWrite
  openWrites := c.pending.countP WsOp.isWrite
  queue := c.messageQueue
  delivered := c.delivered
  fault := c.fault

/-- `shutting_down_` or `dropped_` is set. -/
def terminated (c : WsConnection) : Bool := c.dropped || c.shuttingDown

/-- The messages the handler of an event passes to `process_message`. -/
def deliveries (settings : Settings) (c : WsConnection) : WsEvent → List Message
  | .read (.ok inbound) =>
    if (c.counted inbound).rateKill settings || !inbound.gotBinary then []
    else [.fromVector ((c.readBuffer ++ inbound.data).take inbound.data.length)]
  | _ => []

namespace WsTeardownLemmas

open WsWritingLemmas

theorem abort_teardown (c : WsConnection) : c.abort.teardown = c.teardown.abort := by
  have hdropped : c.teardown.dropped = c.dropped := rfl
  unfold abort Teardown.abort
  rw [hdropped]
  split <;> rfl

theorem start_teardown {op : WsOp} (hwrite : op.isWrite = false)
    (hshutdown : (op == .sslShutdown) = false) (c : WsConnection) :
    (c.start op).teardown = c.teardown := by
  simp [start, teardown, List.countP_append, hwrite, hshutdown]

theorem sslShutdown_teardown (c : WsConnection) : (c.start .sslShutdown).teardown =
    { c.teardown with
      shutdowns := c.teardown.shutdowns + 1
      openShutdowns := c.teardown.openShutdowns + 1 } := by
  simp [start, teardown, List.countP_append, WsOp.isWrite]

theorem shutdown_teardown (c : WsConnection) : c.shutdown.teardown = c.teardown.shutdown := by
  unfold shutdown
  split
  · next hflags => exact (if_pos hflags).symm
  next hflags =>
  have hrunning : c.teardown.terminated = false := Bool.eq_false_iff.mpr hflags
  dsimp only
  split
  · next hclosed =>
    exact (Teardown.shutdown_closed hrunning (by simpa [cancelAll, teardown] using hclosed)).symm
  · next hopen =>
    rw [Teardown.shutdown_open hrunning (by simpa [cancelAll, teardown] using hopen)]
    exact congrArg (fun t : Teardown => { t with shuttingDown := true })
      (sslShutdown_teardown c.cancelAll)

theorem abort_quiet (c : WsConnection) : c.teardown.Quiet c.abort.teardown := by
  rw [abort_teardown]
  exact .abort

theorem shutdown_quiet (c : WsConnection) : c.teardown.Quiet c.shutdown.teardown := by
  rw [shutdown_teardown]
  exact .shutdown

theorem start_quiet {op : WsOp} (hwrite : op.isWrite = false)
    (hshutdown : (op == .sslShutdown) = false) (c : WsConnection) :
    c.teardown.Quiet (c.start op).teardown := by
  rw [start_teardown hwrite hshutdown]
  exact .stay

theorem handleError_quiet (c : WsConnection) (ec : ErrorKind) :
    c.teardown.Quiet (c.handleError ec).teardown := by
  unfold handleError
  split
  · exact .stay
  cases ec with
  | reset => exact abort_quiet c
  | canceled => exact .stay
  | other => exact shutdown_quiet c

theorem doWriteMessage_teardown (c : WsConnection) {m : Message} (hm : m.isEmpty = false) :
    (c.doWriteMessage m).teardown =
      { c.teardown with
        writes := c.teardown.writes + 1
        openWrites := c.teardown.openWrites + 1 } := by
  rw [Message.eq_fromVector hm]
  simp [doWriteMessage, assignOutbound, Message.fromVector, start, teardown, List.countP_append,
    WsOp.isWrite]

theorem sendMessage_act (hvalid : c.messageQueue.Valid) (m : Message) :
    c.teardown.Act (c.sendMessage m).teardown := by
  unfold sendMessage sendMessageBody
  split
  · exact .quiet .stay
  next hempty =>
  have hm : m.isEmpty = false := by simpa using hempty
  split
  · exact .quiet .stay
  next hflags =>
  have hrunning : c.teardown.terminated = false := Bool.eq_false_iff.mpr hflags
  dsimp only
  split
  · rw [doWriteMessage_teardown _ hm]
    exact .write hrunning
  · obtain ⟨queue, hpush, _⟩ := MessageQueue.push_spec hvalid hm
    rw [hpush]
    exact .push hrunning hm hpush

theorem onWriteMessage_act (hvalid : c.messageQueue.Valid) (result : Except ErrorKind Unit) :
    c.teardown.Act (c.onWriteMessage result).teardown := by
  cases result with
  | error ec =>
    exact .quiet (handleError_quiet { c.assignOutbound .empty with writeFailed := true } ec)
  | ok u =>
    unfold onWriteMessage writeQueued
    rcases MessageQueue.tryPop_spec hvalid with ⟨hnone, _⟩ | ⟨m, queue, hsome, hm, _, _⟩
    · have hpop : (c.assignOutbound .empty).messageQueue.tryPop = some none := hnone
      dsimp only
      rw [hpop]
      exact .quiet .stay
    · have hpop : (c.assignOutbound .empty).messageQueue.tryPop = some (some (m, queue)) := hsome
      dsimp only
      rw [hpop]
      dsimp only
      rw [doWriteMessage_teardown _ hm]
      exact .pop hsome

/-! ## Quiet handlers -/

theorem onTimeout_quiet (c : WsConnection) (state : WaitState) :
    c.teardown.Quiet (c.onTimeout state).teardown := by
  unfold onTimeout
  split
  · exact .stay
  · exact abort_quiet c

theorem onShutdown_quiet (hshutting : c.shuttingDown = true) (result : Except ErrorKind Unit) :
    c.teardown.Quiet (c.onShutdown result).teardown := by
  unfold onShutdown
  split
  · exact .stay
  · next hdropped => exact .close (Bool.eq_false_iff.mpr hdropped) hshutting

theorem onSslHandshake_quiet (c : WsConnection) (result : Except ErrorKind Unit) :
    c.teardown.Quiet (c.onSslHandshake result).teardown := by
  cases result with
  | error ec => exact abort_quiet c
  | ok u => exact start_quiet rfl rfl c

theorem onReadRequest_quiet (settings : Settings) (c : WsConnection)
    (result : Except ErrorKind Request) (active : Int) :
    c.teardown.Quiet (c.onReadRequest settings result active).teardown := by
  cases result with
  | error ec => exact handleError_quiet c ec
  | ok request =>
    -- Clearing the buffer and answering leave the end of the connection alone.
    have hrespond : ∀ c1 : WsConnection, c1.teardown = c.teardown → ∀ response,
        c.teardown.Quiet (c1.respond response).teardown := by
      intro c1 hsame response
      rw [← hsame]
      exact shutdown_quiet { c1 with responses := c1.responses ++ [response] }
    have hbuffer : (if 0 < (c.readBuffer ++ request.leftover).length then
          { c with readBuffer := [] }
        else { c with readBuffer := c.readBuffer ++ request.leftover }).teardown =
        c.teardown := by
      split <;> rfl
    unfold onReadRequest
    dsimp only
    split
    · exact hrespond _ hbuffer _
    split
    · rw [start_teardown rfl rfl, hbuffer]
      exact .stay
    · exact hrespond _ hbuffer _

theorem onWsHandshake_quiet (settings : Settings) (c : WsConnection)
    (result : Except ErrorKind Unit) :
    c.teardown.Quiet (c.onWsHandshake settings result).teardown := by
  unfold onWsHandshake
  split
  · exact .stay
  cases result with
  | error ec => exact shutdown_quiet c
  | ok u =>
    have hread : WsOp.read.isWrite = false := rfl
    exact start_quiet hread rfl
      ({ c with upgraded := true }.setTimeout (seconds (settings.wsTimeout + 5)))

theorem limited_teardown (settings : Settings) (c : WsConnection) :
    (c.limited settings).teardown = c.teardown := by
  unfold limited
  split <;> rfl

theorem takeMessage_teardown (settings : Settings) (c : WsConnection) (readlen : Nat) :
    (c.takeMessage settings readlen).teardown =
      { c.teardown with
        delivered := c.delivered ++ [.fromVector (c.readBuffer.take readlen)] } := by
  have hread : (start { c with readBuffer := c.readBuffer.drop readlen } .read).teardown =
      c.teardown := start_teardown rfl rfl _
  unfold takeMessage
  dsimp only
  split <;>
    exact congrArg (fun t : Teardown =>
      { t with delivered := t.delivered ++ [Message.fromVector (c.readBuffer.take readlen)] }) hread

theorem onRead_quiet (hfault : c.fault = false) (result : Except ErrorKind Inbound) :
    (c.teardown.noting (c.deliveries settings (.read result)) false).Quiet
      (c.onRead settings result).teardown := by
  have hsame : c.teardown.noting [] false = c.teardown := Teardown.noting_nil hfault
  cases result with
  | error ec =>
    show (c.teardown.noting [] false).Quiet _
    rw [hsame]
    exact handleError_quiet c ec
  | ok inbound =>
    have hlimited : ((c.counted inbound).limited settings).teardown = c.teardown :=
      limited_teardown settings (c.counted inbound)
    have hdeliver : c.deliveries settings (.read (.ok inbound)) =
        if (c.counted inbound).rateKill settings || !inbound.gotBinary then []
        else [.fromVector ((c.readBuffer ++ inbound.data).take inbound.data.length)] := rfl
    rw [onRead_ok, hdeliver]
    by_cases hkill : (c.counted inbound).rateKill settings = true
    · rw [if_pos hkill, if_pos (by rw [hkill]; rfl), hsame]
      exact abort_quiet (c.counted inbound)
    rw [if_neg hkill]
    by_cases htext : (!inbound.gotBinary) = true
    · rw [if_pos htext, if_pos (by rw [htext, Bool.or_true]), hsame, ← hlimited]
      exact shutdown_quiet _
    · have hlog : ((c.counted inbound).limited settings).delivered = c.delivered :=
        congrArg Teardown.delivered hlimited
      have hbuf : ((c.counted inbound).limited settings).readBuffer =
          c.readBuffer ++ inbound.data := by
        unfold limited
        split <;> rfl
      have hflags : ¬((c.counted inbound).rateKill settings || !inbound.gotBinary) = true := by
        rw [Bool.or_eq_true]
        exact fun h => h.elim hkill htext
      rw [if_neg htext, if_neg hflags, takeMessage_teardown, hlimited, hlog, hbuf, ← hfault]
      exact .stay

/-! ## Completions -/

theorem without_completes (c : WsConnection) (p : WsOp → Bool) :
    c.teardown.Completes (c.without p).teardown :=
  ⟨List.eraseP_sublist.countP_le, List.eraseP_sublist.countP_le, rfl⟩

theorem completes_refl (t : Teardown) : t.Completes t := ⟨Nat.le_refl _, Nat.le_refl _, rfl⟩

theorem shuttingDown_of_pending (honce : c.teardown.Once)
    (hany : c.pending.any (· == .sslShutdown) = true) : c.shuttingDown = true := by
  have hopen : 0 < c.teardown.openShutdowns := countP_pos_of_any (fun _ h => h) hany
  exact Teardown.TeardownLemmas.shuttingDown_of_open honce hopen

theorem setTimer_teardown (c : WsConnection) (t : Timer Unit) (id : TimerId) :
    (c.setTimer t id).teardown = c.teardown := by
  cases id <;> rfl

end WsTeardownLemmas

open WsTeardownLemmas WsWritingLemmas

/-- What the steps do that neither send nor complete a write. -/
theorem step_quiet {e : WsEvent} (honce : c.teardown.Once) (h : step settings c e = some c')
    (hsend : ∀ m, e ≠ .send m) (hwrote : ∀ result, e ≠ .wrote result) :
    ∃ t, c.teardown.Completes t ∧ (t.noting (c.deliveries settings e) false).Quiet c'.teardown := by
  obtain ⟨hfault, hcases⟩ := step_cases h
  -- The handlers that deliver nothing.
  have hplain : ∀ p, (c.without p).teardown.Quiet c'.teardown → ∃ t, c.teardown.Completes t ∧
      (t.noting [] false).Quiet c'.teardown := by
    intro p hquiet
    refine ⟨_, without_completes c p, ?_⟩
    rw [Teardown.noting_nil hfault]
    exact hquiet
  have htimer : c.teardown.Quiet c'.teardown → ∃ t, c.teardown.Completes t ∧
      (t.noting [] false).Quiet c'.teardown := by
    intro hquiet
    refine ⟨_, completes_refl _, ?_⟩
    rw [Teardown.noting_nil hfault]
    exact hquiet
  cases hcases with
  | send message => exact absurd rfl (hsend message)
  | wrote result => exact absurd rfl (hwrote result)
  | sslHandshake result => exact hplain _ (onSslHandshake_quiet _ result)
  | requestRead result active => exact hplain _ (onReadRequest_quiet settings _ result active)
  | wsHandshake result => exact hplain _ (onWsHandshake_quiet settings _ result)
  | read result =>
    exact ⟨_, without_completes c (· == .read), onRead_quiet (c := c.without _) hfault result⟩
  | shutdownDone result hany =>
    have hshutting := shuttingDown_of_pending honce hany
    exact hplain _ (onShutdown_quiet (c := c.without _) hshutting result)
  | tick duration => exact htimer .stay
  | expire id t =>
    have hquiet : c.teardown.Quiet (c.setTimer t id).teardown := by
      rw [setTimer_teardown]
      exact .stay
    exact htimer hquiet
  | timeout id i w t =>
    have hquiet := onTimeout_quiet (c.setTimer t id) w.state
    rw [setTimer_teardown] at hquiet
    exact htimer hquiet

/-- A step in the strand is a step of `Teardown`. -/
theorem step_teardown {e : WsEvent} (honce : c.teardown.Once)
    (h : step settings c e = some c') :
    c.teardown.Step (c.deliveries settings e) false c'.teardown := by
  obtain ⟨hnoFault, hcases⟩ := step_cases h
  have hquiet : ∀ {e c'}, step settings c e = some c' → (∀ m, e ≠ .send m) →
      (∀ result, e ≠ .wrote result) →
      c.teardown.Step (c.deliveries settings e) false c'.teardown := by
    intro e c' h hsend hwrote
    obtain ⟨t, hcompletes, hquiet⟩ := step_quiet honce h hsend hwrote
    exact ⟨t, hcompletes, .quiet hquiet⟩
  cases hcases with
  | send m =>
    refine ⟨c.teardown, completes_refl _, ?_⟩
    show (c.teardown.noting [] false).Act _
    rw [Teardown.noting_nil hnoFault]
    exact sendMessage_act honce.valid m
  | wrote result =>
    refine ⟨_, without_completes c WsOp.isWrite, ?_⟩
    show (Teardown.noting _ [] false).Act _
    rw [Teardown.noting_nil hnoFault]
    exact onWriteMessage_act (c := c.without _) honce.valid result
  | _ => exact hquiet h nofun nofun

end WsConnection

end Ian.Front
