import Ian.Front.Ending

/-!
# Refreshing the timeout

`set_timeout` cancels `timer_` and arms it anew. A cancellation does not reach a
wait that has expired: its handler is queued, and `on_timeout` has nothing to
tell it from the handler of the new wait. So a message that is read in that
window is followed by an abort that its own refresh should have put off
(`timeout_after_refresh`). `refresh_supersedes` is what holds of the runs in
which no timeout is set in that window.
-/

namespace Ian.Front

open Ian.Lib Ian.Common

namespace WsConnection

/-- The delay with which the handler of the event calls `set_timeout`, if it
does. -/
def refreshes (settings : Settings) (c : WsConnection) : WsEvent → Option Int
  | .wsHandshake (.ok ()) =>
    if c.dropped then none else some (seconds (settings.wsTimeout + 5))
  | .read (.ok inbound) =>
    if (c.counted inbound).rateKill settings || !inbound.gotBinary then none
    else if c.timer.expiry - c.now ≤ seconds settings.wsTimeout then
      some (seconds (settings.wsTimeout + 5))
    else none
  | _ => none

/-- The time before which the timeout that the event sets must not abort the
connection, unless it is dropped already. -/
def deadlinesOf (settings : Settings) (c : WsConnection) (e : WsEvent) : List Int :=
  if c.dropped then [] else ((c.refreshes settings e).map (c.now + ·)).toList

/-- The deadlines of the timeouts set in the run, the one that `run` sets first. -/
def deadlines (settings : Settings) (now : Int) (es : List WsEvent) : List Int :=
  (now + seconds settings.wsSetupTimeout) ::
    observe (step settings) (deadlinesOf settings) ((init now).run settings) es

/-- A timeout that the step sets finds no expired wait of `timer_` whose handler
is queued, and its deadline is not before the one it replaces. -/
def Supersedes (settings : Settings) (c : WsConnection) (e : WsEvent) : Prop :=
  ∀ delay ∈ c.refreshes settings e, c.dropped = false →
    c.timer.fired = false ∧ c.timer.expiry ≤ c.now + delay

instance (settings : Settings) (c : WsConnection) (e : WsEvent) :
    Decidable (Supersedes settings c e) :=
  inferInstanceAs (Decidable (∀ delay ∈ c.refreshes settings e, _))

/-- What a step does to `timer_`. -/
inductive Moves (c : WsConnection) (refresh : Option Int) (c' : WsConnection) : Prop where
  | kept (hnone : refresh = none) (htimer : c'.timer = c.timer) (hnow : c.now ≤ c'.now)
  | cancelled (hnone : refresh = none) (htimer : c'.timer = c.timer.cancel)
    (hnow : c'.now = c.now)
  | refreshed (delay : Int) (hsome : refresh = some delay)
    (htimer : c'.timer = (c.timer.cancel.expiresFromNow c.now delay).asyncWait ())
    (hnow : c'.now = c.now)
  | expired (hnone : refresh = none) (hexpire : c.timer.expire c.now = some c'.timer)
    (hnow : c'.now = c.now)
  | taken (hnone : refresh = none) (i : Nat) (w : Wait Unit) (t : Timer Unit)
    (htake : c.timer.take i = some (w, t)) (htimer : c'.timer = t ∨ c'.timer = t.cancel)
    (hnow : c'.now = c.now)

variable {c c' c1 : WsConnection} {settings : Settings}

theorem Moves.unchanged (c : WsConnection) : Moves c none c := .kept rfl rfl (Int.le_refl _)

/-- Nothing in between concerns the timer or the clock. -/
theorem Moves.of_same {refresh : Option Int} (h : Moves c1 refresh c')
    (htimer : c1.timer = c.timer) (hnow : c1.now = c.now) : Moves c refresh c' := by
  cases h with
  | kept hnone ht hn => exact .kept hnone (ht.trans htimer) (hnow ▸ hn)
  | cancelled hnone ht hn => exact .cancelled hnone (htimer ▸ ht) (hn.trans hnow)
  | refreshed delay hsome ht hn => exact .refreshed delay hsome (htimer ▸ hnow ▸ ht) (hn.trans hnow)
  | expired hnone he hn => exact .expired hnone (htimer ▸ hnow ▸ he) (hn.trans hnow)
  | taken hnone i w t ht htimer' hn =>
    exact .taken hnone i w t (htimer ▸ ht) htimer' (hn.trans hnow)

/-- Nothing afterwards does either. -/
theorem Moves.then_same {refresh : Option Int} (h : Moves c refresh c1)
    (htimer : c'.timer = c1.timer) (hnow : c'.now = c1.now) : Moves c refresh c' := by
  cases h with
  | kept hnone ht hn => exact .kept hnone (htimer.trans ht) (hnow ▸ hn)
  | cancelled hnone ht hn => exact .cancelled hnone (htimer.trans ht) (hnow.trans hn)
  | refreshed delay hsome ht hn => exact .refreshed delay hsome (htimer.trans ht) (hnow.trans hn)
  | expired hnone he hn => exact .expired hnone (htimer ▸ he) (hnow.trans hn)
  | taken hnone i w t ht htimer' hn =>
    exact .taken hnone i w t ht (htimer ▸ htimer') (hnow.trans hn)

namespace RefreshingLemmas

theorem abort_moves (c : WsConnection) : Moves c none c.abort := by
  unfold abort
  split
  · exact Moves.unchanged c
  · exact .cancelled rfl rfl rfl

theorem shutdown_moves (c : WsConnection) : Moves c none c.shutdown := by
  unfold shutdown
  split
  · exact Moves.unchanged c
  · dsimp only
    split <;> exact .cancelled rfl rfl rfl

theorem handleError_moves (c : WsConnection) (ec : ErrorKind) :
    Moves c none (c.handleError ec) := by
  unfold handleError
  split
  · exact Moves.unchanged c
  cases ec with
  | reset => exact abort_moves c
  | canceled => exact Moves.unchanged c
  | other => exact shutdown_moves c

/-! ## Handlers -/

theorem onSslHandshake_moves (c : WsConnection) (result : Except ErrorKind Unit) :
    Moves c none (c.onSslHandshake result) := by
  cases result with
  | error ec => exact abort_moves c
  | ok u => exact .kept rfl rfl (Int.le_refl _)

theorem onReadRequest_moves (settings : Settings) (c : WsConnection)
    (result : Except ErrorKind Request) (active : Int) :
    Moves c none (c.onReadRequest settings result active) := by
  cases result with
  | error ec => exact handleError_moves c ec
  | ok request =>
    have hrespond : ∀ c1 : WsConnection, c1.timer = c.timer → c1.now = c.now →
        ∀ response, Moves c none (c1.respond response) := by
      intro c1 htimer hnow response
      exact (shutdown_moves { c1 with responses := c1.responses ++ [response] }).of_same htimer hnow
    -- The buffer is cleared or empty already.
    obtain ⟨c1, hc1, htimer, hnow⟩ : ∃ c1 : WsConnection, c1 =
        (if 0 < (c.readBuffer ++ request.leftover).length then { c with readBuffer := [] }
          else { c with readBuffer := c.readBuffer ++ request.leftover }) ∧
        c1.timer = c.timer ∧ c1.now = c.now := by
      refine ⟨_, rfl, ?_⟩
      split <;> exact ⟨rfl, rfl⟩
    unfold onReadRequest
    dsimp only
    rw [← hc1]
    split
    · exact hrespond c1 htimer hnow _
    split
    · have hstart : Moves c1 none (c1.start .wsHandshake) := .kept rfl rfl (Int.le_refl _)
      exact hstart.of_same htimer hnow
    · exact hrespond c1 htimer hnow _

theorem onWsHandshake_moves (settings : Settings) (c : WsConnection)
    (result : Except ErrorKind Unit) :
    Moves c (c.refreshes settings (.wsHandshake result)) (c.onWsHandshake settings result) := by
  cases result with
  | error ec =>
    unfold onWsHandshake
    split
    · exact Moves.unchanged c
    · exact shutdown_moves c
  | ok u =>
    unfold onWsHandshake refreshes
    by_cases hdropped : c.dropped = true
    · rw [if_pos hdropped, if_pos hdropped]
      exact Moves.unchanged c
    · rw [if_neg hdropped, if_neg hdropped]
      exact .refreshed _ rfl rfl rfl

theorem takeMessage_moves (settings : Settings) (c : WsConnection) (readlen : Nat) :
    Moves c (if c.timer.expiry - c.now ≤ seconds settings.wsTimeout then
      some (seconds (settings.wsTimeout + 5)) else none) (c.takeMessage settings readlen) := by
  have htake : ∀ c1 : WsConnection, c1.timer = c.timer → c1.now = c.now →
      Moves c (if c.timer.expiry - c.now ≤ seconds settings.wsTimeout then
        some (seconds (settings.wsTimeout + 5)) else none)
        (if c1.timer.expiry - c1.now ≤ seconds settings.wsTimeout then
          c1.setTimeout (seconds (settings.wsTimeout + 5)) else c1) := by
    intro c1 htimer hnow
    rw [htimer, hnow]
    by_cases hsoon : c.timer.expiry - c.now ≤ seconds settings.wsTimeout
    · rw [if_pos hsoon, if_pos hsoon]
      refine .refreshed _ rfl ?_ hnow
      unfold setTimeout
      rw [htimer, hnow]
    · rw [if_neg hsoon, if_neg hsoon]
      exact .kept rfl htimer (Int.le_of_eq hnow.symm)
  exact (htake ({ c with readBuffer := c.readBuffer.drop readlen }.start .read) 
    rfl rfl).then_same rfl rfl

theorem onRead_moves (settings : Settings) (c : WsConnection) (result : Except ErrorKind Inbound) :
    Moves c (c.refreshes settings (.read result)) (c.onRead settings result) := by
  cases result with
  | error ec => exact handleError_moves c ec
  | ok inbound =>
    obtain ⟨c1, hc1, htimer, hnow⟩ : ∃ c1, c1 = (c.counted inbound).limited settings ∧
        c1.timer = c.timer ∧ c1.now = c.now := by
      refine ⟨_, rfl, ?_⟩
      unfold limited
      split <;> exact ⟨rfl, rfl⟩
    have hrefresh : c.refreshes settings (.read (.ok inbound)) =
        if (c.counted inbound).rateKill settings || !inbound.gotBinary then none
        else if c1.timer.expiry - c1.now ≤ seconds settings.wsTimeout then
          some (seconds (settings.wsTimeout + 5))
        else none := by
      rw [htimer, hnow]
      rfl
    rw [onRead_ok, ← hc1, hrefresh]
    by_cases hkill : (c.counted inbound).rateKill settings = true
    · rw [if_pos hkill, if_pos (by rw [hkill]; rfl)]
      exact (abort_moves (c.counted inbound)).of_same rfl rfl
    rw [if_neg hkill]
    by_cases htext : (!inbound.gotBinary) = true
    · rw [if_pos htext, if_pos (by rw [htext, Bool.or_true])]
      exact (shutdown_moves c1).of_same htimer hnow
    · have hpass : ¬((c.counted inbound).rateKill settings || !inbound.gotBinary) = true := by
        rw [Bool.or_eq_true, not_or]
        exact ⟨hkill, htext⟩
      rw [if_neg htext, if_neg hpass]
      exact (takeMessage_moves settings c1 _).of_same htimer hnow

theorem doWriteMessage_moves (c : WsConnection) (m : Message) :
    Moves c none (c.doWriteMessage m) := by
  unfold doWriteMessage
  dsimp only
  split <;> exact .kept rfl rfl (Int.le_refl _)

theorem sendMessage_moves (c : WsConnection) (m : Message) : Moves c none (c.sendMessage m) := by
  unfold sendMessage sendMessageBody
  dsimp only
  split
  · exact Moves.unchanged c
  split
  · exact Moves.unchanged c
  split
  · exact (doWriteMessage_moves { c with accepted := c.accepted ++ [m], isWriting := true }
      m).of_same rfl rfl
  split <;> exact .kept rfl rfl (Int.le_refl _)

theorem onWriteMessage_moves (c : WsConnection) (result : Except ErrorKind Unit) :
    Moves c none (c.onWriteMessage result) := by
  cases result with
  | error ec =>
    have hmoves := handleError_moves { c.assignOutbound .empty with writeFailed := true } ec
    exact hmoves.of_same rfl rfl
  | ok u =>
    unfold onWriteMessage writeQueued
    dsimp only
    split
    · exact .kept rfl rfl (Int.le_refl _)
    · exact .kept rfl rfl (Int.le_refl _)
    · exact (doWriteMessage_moves _ _).of_same rfl rfl

theorem onShutdown_moves (c : WsConnection) (result : Except ErrorKind Unit) :
    Moves c none (c.onShutdown result) := by
  unfold onShutdown
  split <;> exact .kept rfl rfl (Int.le_refl _)

theorem expire_moves {id : TimerId} {t : Timer Unit} (h : (c.getTimer id).expire c.now = some t) :
    Moves c none (c.setTimer t id) := by
  cases id with
  | timer => exact .expired rfl h rfl
  | stateTimer => exact .kept rfl rfl (Int.le_refl _)

theorem timeout_moves {id : TimerId} {i : Nat} {w : Wait Unit} {t : Timer Unit}
    (h : (c.getTimer id).take i = some (w, t)) :
    Moves c none ((c.setTimer t id).onTimeout w.state) := by
  cases id with
  | timer =>
    refine .taken rfl i w t h ?_ ?_
    all_goals
      unfold onTimeout abort
      repeat' split
    · exact Or.inl rfl
    · exact Or.inl rfl
    · exact Or.inr rfl
    · rfl
    · rfl
    · rfl
  | stateTimer =>
    unfold onTimeout
    split
    · exact .kept rfl rfl (Int.le_refl _)
    · exact (abort_moves (c.setTimer t .stateTimer)).of_same rfl rfl

end RefreshingLemmas

open RefreshingLemmas WsWritingLemmas

theorem step_moves {e : WsEvent} (h : step settings c e = some c') :
    Moves c (c.refreshes settings e) c' := by
  cases (step_cases h).2 with
  | send message => exact sendMessage_moves c message
  | sslHandshake result => exact (onSslHandshake_moves (c.without _) result).of_same rfl rfl
  | requestRead result active =>
    exact (onReadRequest_moves settings (c.without _) result active).of_same rfl rfl
  | wsHandshake result => exact (onWsHandshake_moves settings (c.without _) result).of_same rfl rfl
  | read result => exact (onRead_moves settings (c.without _) result).of_same rfl rfl
  | wrote result => exact (onWriteMessage_moves (c.without _) result).of_same rfl rfl
  | shutdownDone result => exact (onShutdown_moves (c.without _) result).of_same rfl rfl
  | tick duration => exact .kept rfl rfl (Int.le_add_of_nonneg_right (Int.natCast_nonneg _))
  | expire id t ht => exact expire_moves ht
  | timeout id i w t ht => exact timeout_moves ht

/-- None of the deadlines is after the expiry time of `timer_`, which has come if
a wait has expired. -/
structure Punctual (c : WsConnection) (ds : List Int) : Prop where
  deadlines : ∀ d ∈ ds, d ≤ c.timer.expiry
  due : c.timer.fired = true → c.timer.expiry ≤ c.now

/-- A step that sets no timeout leaves the expiry time. -/
theorem Moves.punctual {ds : List Int} (h : Moves c none c') (hc : Punctual c ds) :
    Punctual c' ds := by
  cases h with
  | kept _ htimer hnow =>
    refine ⟨?_, ?_⟩
    all_goals rw [htimer]
    · exact hc.deadlines
    · exact fun hfired => Int.le_trans (hc.due hfired) hnow
  | cancelled _ htimer hnow =>
    refine ⟨?_, ?_⟩
    all_goals rw [htimer]
    · exact hc.deadlines
    · rw [Timer.cancel_fired, hnow]
      exact hc.due
  | refreshed delay hsome => cases hsome
  | expired _ hexpire hnow =>
    obtain ⟨hexpiry, hdue⟩ := Timer.expire_due hexpire
    refine ⟨?_, ?_⟩
    all_goals rw [hexpiry]
    · exact hc.deadlines
    · exact fun _ => hnow ▸ hdue
  | taken _ i w t htake htimer hnow =>
    have hexpiry := (Timer.take_expiry htake).1
    have ht : t.fired = true → t.expiry ≤ c'.now := by
      intro hfired
      rw [hexpiry, hnow]
      exact hc.due (Timer.take_fired htake hfired)
    obtain htimer | htimer := htimer
    all_goals
      refine ⟨?_, ?_⟩
      all_goals rw [htimer]
    · rw [hexpiry]
      exact hc.deadlines
    · exact ht
    · show ∀ d ∈ ds, d ≤ t.expiry
      rw [hexpiry]
      exact hc.deadlines
    · rw [Timer.cancel_fired]
      exact ht

theorem Moves.punctual_refreshed {ds : List Int} {delay : Int} (h : Moves c (some delay) c')
    (hc : Punctual c ds) (hfired : c.timer.fired = false)
    (hlater : c.timer.expiry ≤ c.now + delay) : Punctual c' (ds ++ [c.now + delay]) := by
  cases h with
  | refreshed delay' hsome htimer hnow =>
    cases hsome
    refine ⟨fun d hd => ?_, fun hd => ?_⟩
    · rw [htimer]
      show d ≤ c.now + delay
      obtain hd | hd := List.mem_append.mp hd
      · exact Int.le_trans (hc.deadlines d hd) hlater
      · exact Int.le_of_eq (List.mem_singleton.mp hd)
    · rw [htimer, Timer.asyncWait_fired] at hd
      have hcancelled : c.timer.cancel.cancel.fired = true := hd
      rw [Timer.cancel_fired, Timer.cancel_fired, hfired] at hcancelled
      cases hcancelled
  | _ hnone => cases hnone

theorem step_dropped {e : WsEvent} (honce : c.teardown.Once) (h : step settings c e = some c')
    (hdropped : c.dropped = true) : c'.dropped = true :=
  ((step_teardown honce h).final honce).2.dropped hdropped

/-- Until the connection is dropped it is punctual, whatever timeouts are set. -/
theorem step_punctual {ds : List Int} {e : WsEvent} (hc : c.dropped = false → Punctual c ds)
    (hsupersedes : Supersedes settings c e) (honce : c.teardown.Once)
    (h : step settings c e = some c') (hdropped : c'.dropped = false) :
    Punctual c' (ds ++ c.deadlinesOf settings e) := by
  have hrunning : c.dropped = false := by
    cases hd : c.dropped with
    | false => rfl
    | true => exact (step_dropped honce h hd).symm.trans hdropped
  have hmoves := step_moves h
  unfold deadlinesOf
  rw [if_neg (by rw [hrunning]; decide)]
  cases hrefresh : c.refreshes settings e with
  | none =>
    rw [hrefresh] at hmoves
    rw [Option.map_none, Option.toList_none, List.append_nil]
    exact hmoves.punctual (hc hrunning)
  | some delay =>
    rw [hrefresh] at hmoves
    obtain ⟨hfired, hlater⟩ := hsupersedes delay hrefresh hrunning
    exact hmoves.punctual_refreshed (hc hrunning) hfired hlater

theorem run_punctual {es : List WsEvent} {ds : List Int} (hc : c.dropped = false → Punctual c ds)
    (honce : c.teardown.Once) (hall : AllSteps (step settings) (Supersedes settings) c es)
    (hrun : runEvents (step settings) c es = some c') (hdropped : c'.dropped = false) :
    Punctual c' (ds ++ observe (step settings) (deadlinesOf settings) c es) := by
  induction es generalizing c ds with
  | nil =>
    cases hrun
    rw [observe, List.append_nil]
    exact hc hdropped
  | cons e es ih =>
    obtain ⟨s, hstep, hrest⟩ := Option.bind_eq_some_iff.mp hrun
    rw [observe_cons hstep, ← List.append_assoc]
    exact ih (fun hd => step_punctual hc hall.1 honce hstep hd) (step_once honce hstep)
      (hall.2 s hstep) hrest

/-- The handler of a wait on `timer_` aborts the connection only if the wait has
expired. -/
theorem fired_of_abort {i : Nat} (h : step settings c (.timeout .timer i) = some c')
    (hrunning : c.dropped = false) (hdropped : c'.dropped = true) : c.timer.fired = true := by
  cases (step_cases h).2 with
  | timeout id i w t htake =>
    have hmem := (Timer.take_spec htake).1
    have hwaiting := (Timer.take_expiry htake).2
    cases hstate : w.state with
    | waiting => exact absurd hstate hwaiting
    | expired => exact List.any_eq_true.mpr ⟨w, hmem, by rw [hstate]; rfl⟩
    | aborted =>
      unfold onTimeout at hdropped
      rw [if_pos (by simp [hstate])] at hdropped
      cases hdropped.symm.trans hrunning

/-- A timeout that finds no expired wait takes back all the waits before its
own. -/
theorem refresh_takes_back {e : WsEvent} {delay : Int} (hsupersedes : Supersedes settings c e)
    (hrunning : c.dropped = false) (hrefresh : c.refreshes settings e = some delay)
    (h : step settings c e = some c') :
    ∃ old, c'.timer.waits = old ++ [⟨(), .waiting⟩] ∧ ∀ w ∈ old, w.state = .aborted := by
  obtain ⟨hfired, -⟩ := hsupersedes delay hrefresh hrunning
  have hmoves := step_moves h
  rw [hrefresh] at hmoves
  cases hmoves with
  | refreshed delay' hsome htimer =>
    refine ⟨c.timer.cancel.cancel.waits, by rw [htimer]; rfl, fun w hw => ?_⟩
    refine Timer.cancel_aborted ?_ hw
    rw [Timer.cancel_fired]
    exact hfired
  | _ hnone => cases hnone

end WsConnection

open WsConnection

/-- In the runs that set no timeout while the handler of an expired wait is
queued, and none with an earlier deadline, `timer_` aborts the connection only
after every deadline set, and a wait that has been replaced never does. -/
theorem refresh_supersedes (settings : Settings) (now : Int) (es : List WsEvent) (c : WsConnection)
    (hrun : runEvents (step settings) ((init now).run settings) es = some c)
    (hall : AllSteps (step settings) (Supersedes settings) ((init now).run settings) es) :
    (∀ i c', step settings c (.timeout .timer i) = some c' → c.dropped = false →
        c'.dropped = true → ∀ d ∈ deadlines settings now es, d ≤ c.now) ∧
      (∀ e delay c', Supersedes settings c e → c.dropped = false →
        c.refreshes settings e = some delay → step settings c e = some c' →
        ∃ old, c'.timer.waits = old ++ [⟨(), .waiting⟩] ∧ ∀ w ∈ old, w.state = .aborted) := by
  refine ⟨fun i c' hstep hrunning hdropped d hd => ?_, fun e delay c' hsupersedes hrunning
    hrefresh hstep => refresh_takes_back hsupersedes hrunning hrefresh hstep⟩
  have hinit : Punctual ((init now).run settings) [now + seconds settings.wsSetupTimeout] :=
    ⟨fun d hd => Int.le_of_eq (List.mem_singleton.mp hd), nofun⟩
  have hpunctual := run_punctual (fun _ => hinit) (run_once settings now) hall hrun hrunning
  exact Int.le_trans (hpunctual.deadlines d hd)
    (hpunctual.due (fired_of_abort hstep hrunning hdropped))

/-- A client that sends a message in time and is timed out later on. -/
theorem refresh_supersedes_read :
    ∃ c c', runEvents (step defaultSettings) ((init 0).run defaultSettings)
        [.sslHandshake (.ok ()), .requestRead (.ok ⟨true, []⟩) 1, .wsHandshake (.ok ()),
          .tick 20000000000, .read (.ok ⟨[7], true⟩), .tick 35000000000, .expire .timer] = some c ∧
      step defaultSettings c (.timeout .timer 2) = some c' ∧ c'.dropped = true ∧
      ∀ d ∈ deadlines defaultSettings 0
        [.sslHandshake (.ok ()), .requestRead (.ok ⟨true, []⟩) 1, .wsHandshake (.ok ()),
          .tick 20000000000, .read (.ok ⟨[7], true⟩), .tick 35000000000, .expire .timer],
        d ≤ c.now :=
  ⟨_, _, rfl, rfl, rfl,
    (refresh_supersedes defaultSettings 0 _ _ rfl (by decide)).1 2 _ rfl rfl rfl⟩

/-- The handshake completes when the setup timeout has just expired. It sets a
timeout of 35 seconds, and the connection is aborted at once. -/
theorem timeout_after_refresh :
    ∃ c c', runEvents (step defaultSettings) ((init 0).run defaultSettings)
        [.sslHandshake (.ok ()), .requestRead (.ok ⟨true, []⟩) 1, .tick 3000000000, .expire .timer,
          .wsHandshake (.ok ())] = some c ∧
      step defaultSettings c (.timeout .timer 0) = some c' ∧ c.dropped = false ∧
      c'.dropped = true ∧ c.now = 3000000000 ∧
      38000000000 ∈ deadlines defaultSettings 0
        [.sslHandshake (.ok ()), .requestRead (.ok ⟨true, []⟩) 1, .tick 3000000000, .expire .timer,
          .wsHandshake (.ok ())] ∧
      ¬∀ d ∈ deadlines defaultSettings 0
        [.sslHandshake (.ok ()), .requestRead (.ok ⟨true, []⟩) 1, .tick 3000000000, .expire .timer,
          .wsHandshake (.ok ())], d ≤ c.now :=
  ⟨_, _, rfl, rfl, rfl, rfl, rfl, by decide, by decide⟩

end Ian.Front
