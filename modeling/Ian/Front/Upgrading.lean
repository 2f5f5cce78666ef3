import Ian.Front.Ending

/-!
# Writes before the websocket handshake

`ClusterConnection::run` sets `is_writing_`, so that messages are queued until
the handshake is done. `WsConnection::run` does not: a message sent before the
websocket handshake is written at once, and exactly then something is written
too early (`kept_until_upgrade_iff`).
-/

namespace Ian.Front

open Ian.Lib Ian.Common

namespace WsConnection

/-- No message is written before the websocket handshake is done, and all that
were taken are written, in flight or queued, in the order sent. -/
structure KeptUntilUpgrade (c : WsConnection) : Prop where
  notEarly : c.upgraded = false → c.started.countP WsOp.isWrite = 0
  order : c.dropped = false → c.shuttingDown = false → c.writeFailed = false →
    c.accepted = c.completed ++ c.outbound.inFlight ++ c.messageQueue.pending

/-- Before the websocket handshake is done, a message is only sent if it is
refused: it is an empty one, or the connection is terminated. -/
def SentAfterUpgrade (c : WsConnection) : WsEvent → Prop
  | .send m => c.upgraded = false → m.isEmpty = true ∨ c.terminated = true
  | _ => True

instance (c : WsConnection) (e : WsEvent) : Decidable (SentAfterUpgrade c e) :=
  match e with
  | .send _ => inferInstanceAs (Decidable (_ → _))
  | .sslHandshake _ | .requestRead _ _ | .wsHandshake _ | .read _ | .wrote _ | .shutdownDone _
  | .tick _ | .expire _ | .timeout _ _ => isTrue trivial

/-- A handler that does not concern writing leaves `is_writing_` as it is. -/
structure Calm (c c' : WsConnection) : Prop where
  isWriting : c'.isWriting = c.isWriting
  upgraded : c.upgraded = true → c'.upgraded = true

variable {c c' c'' : WsConnection} {settings : Settings}

theorem Calm.refl (c : WsConnection) : Calm c c := ⟨rfl, id⟩

theorem Calm.trans (h : Calm c c') (h' : Calm c' c'') : Calm c c'' :=
  ⟨h'.isWriting.trans h.isWriting, fun hu => h'.upgraded (h.upgraded hu)⟩

namespace UpgradingLemmas

open WsWritingLemmas

theorem abort_calm (c : WsConnection) : Calm c c.abort := by
  unfold abort
  split <;> exact ⟨rfl, id⟩

theorem shutdown_calm (c : WsConnection) : Calm c c.shutdown := by
  unfold shutdown
  dsimp only
  split
  · exact Calm.refl c
  split <;> exact ⟨rfl, id⟩

theorem handleError_calm (c : WsConnection) (ec : ErrorKind) : Calm c (c.handleError ec) := by
  unfold handleError
  split
  · exact Calm.refl c
  cases ec with
  | reset => exact abort_calm c
  | canceled => exact Calm.refl c
  | other => exact shutdown_calm c

theorem onSslHandshake_calm (c : WsConnection) (result : Except ErrorKind Unit) :
    Calm c (c.onSslHandshake result) := by
  cases result with
  | error ec => exact abort_calm c
  | ok u => exact ⟨rfl, id⟩

theorem onReadRequest_calm (settings : Settings) (c : WsConnection)
    (result : Except ErrorKind Request) (active : Int) :
    Calm c (c.onReadRequest settings result active) := by
  cases result with
  | error ec => exact handleError_calm c ec
  | ok request =>
    have hbuffer : Calm c (if 0 < (c.readBuffer ++ request.leftover).length then
        { c with readBuffer := [] }
        else { c with readBuffer := c.readBuffer ++ request.leftover }) := by
      split <;> exact ⟨rfl, id⟩
    have hrespond : ∀ (c1 : WsConnection) response, Calm c c1 → Calm c (c1.respond response) := by
      intro c1 response h
      have hlog : Calm c { c1 with responses := c1.responses ++ [response] } :=
        ⟨h.isWriting, h.upgraded⟩
      exact hlog.trans (shutdown_calm _)
    unfold onReadRequest
    dsimp only
    split
    · exact hrespond _ _ hbuffer
    split
    · exact ⟨hbuffer.isWriting, hbuffer.upgraded⟩
    · exact hrespond _ _ hbuffer

theorem onWsHandshake_calm (settings : Settings) (c : WsConnection)
    (result : Except ErrorKind Unit) : Calm c (c.onWsHandshake settings result) := by
  unfold onWsHandshake
  split
  · exact Calm.refl c
  cases result with
  | error ec => exact shutdown_calm c
  | ok u => exact ⟨rfl, fun _ => rfl⟩

theorem onRead_calm (settings : Settings) (c : WsConnection)
    (result : Except ErrorKind Inbound) : Calm c (c.onRead settings result) := by
  cases result with
  | error ec => exact handleError_calm c ec
  | ok inbound =>
    have hlimited : Calm c ((c.counted inbound).limited settings) := by
      unfold limited
      split <;> exact ⟨rfl, id⟩
    have htake : ∀ (c1 : WsConnection) readlen, Calm c1 (c1.takeMessage settings readlen) := by
      intro c1 readlen
      unfold takeMessage
      dsimp only
      split <;> exact ⟨rfl, id⟩
    rw [onRead_ok]
    split
    · have hcount : Calm c (c.counted inbound) := ⟨rfl, id⟩
      exact hcount.trans (abort_calm _)
    split
    · exact hlimited.trans (shutdown_calm _)
    · exact hlimited.trans (htake _ _)

theorem onTimeout_calm (c : WsConnection) (state : WaitState) : Calm c (c.onTimeout state) := by
  unfold onTimeout
  split
  · exact Calm.refl c
  · exact abort_calm c

theorem onShutdown_calm (c : WsConnection) (result : Except ErrorKind Unit) :
    Calm c (c.onShutdown result) := by
  unfold onShutdown
  split <;> exact ⟨rfl, id⟩

theorem setTimer_calm (c : WsConnection) (t : Timer Unit) (id : TimerId) :
    Calm c (c.setTimer t id) := by
  cases id <;> exact ⟨rfl, fun h => h⟩

/-- The steps that are neither a send nor the completion of a write. -/
theorem step_calm {e : WsEvent} (h : step settings c e = some c') (hsend : ∀ m, e ≠ .send m)
    (hwrote : ∀ result, e ≠ .wrote result) : Calm c c' := by
  have hwithout : ∀ p, Calm c (c.without p) := fun _ => ⟨rfl, id⟩
  cases (step_cases h).2 with
  | send message => exact absurd rfl (hsend message)
  | wrote result => exact absurd rfl (hwrote result)
  | sslHandshake result => exact (hwithout _).trans (onSslHandshake_calm _ result)
  | requestRead result active =>
    exact (hwithout _).trans (onReadRequest_calm settings _ result active)
  | wsHandshake result => exact (hwithout _).trans (onWsHandshake_calm settings _ result)
  | read result => exact (hwithout _).trans (onRead_calm settings _ result)
  | shutdownDone result => exact (hwithout _).trans (onShutdown_calm _ result)
  | tick duration => exact ⟨rfl, id⟩
  | expire id t => exact setTimer_calm c t id
  | timeout id i w t => exact (setTimer_calm c t id).trans (onTimeout_calm _ w.state)

theorem onWriteMessage_upgraded (hupgraded : c.upgraded = true)
    (result : Except ErrorKind Unit) : (c.onWriteMessage result).upgraded = true := by
  cases result with
  | error ec =>
    exact (handleError_calm { c.assignOutbound .empty with writeFailed := true } ec).upgraded
      hupgraded
  | ok u =>
    unfold onWriteMessage writeQueued doWriteMessage
    dsimp only
    split
    · exact hupgraded
    · exact hupgraded
    split <;> exact hupgraded

/-! ## Sending -/

theorem sendMessage_refused {m : Message} (h : m.isEmpty = true ∨ c.terminated = true) :
    c.sendMessage m = c := by
  unfold sendMessage sendMessageBody
  split
  · rfl
  · next hempty =>
    rcases h with hm | hterminated
    · exact absurd hm hempty
    · exact if_pos hterminated

theorem sendMessage_upgraded (c : WsConnection) (m : Message) :
    (c.sendMessage m).upgraded = c.upgraded := by
  unfold sendMessage sendMessageBody doWriteMessage
  dsimp only
  split
  · rfl
  split
  · rfl
  split
  · split <;> rfl
  split <;> rfl

/-- A message is written at once unless a write is in progress. -/
theorem sendMessage_taken (hvalid : c.messageQueue.Valid) {m : Message} (hm : m.isEmpty = false)
    (hrunning : c.terminated = false) :
    (c.sendMessage m).isWriting = true ∧ (c.sendMessage m).started.countP WsOp.isWrite =
      c.started.countP WsOp.isWrite + if c.isWriting then 0 else 1 := by
  have hflags : ¬(c.dropped || c.shuttingDown) = true := Bool.eq_false_iff.mp hrunning
  unfold sendMessage sendMessageBody
  rw [if_neg (by simp [hm]), if_neg hflags]
  dsimp only
  cases hwriting : c.isWriting with
  | true =>
    obtain ⟨queue, hpush, _⟩ := MessageQueue.push_spec hvalid hm
    rw [if_neg (by simp), hpush]
    exact ⟨rfl, rfl⟩
  | false =>
    have hwrite := WsTeardownLemmas.doWriteMessage_teardown
      { c with accepted := c.accepted ++ [m], isWriting := true } hm
    rw [if_pos (by simp)]
    refine ⟨?_, congrArg Teardown.writes hwrite⟩
    rw [Message.eq_fromVector hm]
    rfl

/-- What holds throughout a run: the invariants of teardown and writing, and
that a connection that is writing has started a write. -/
structure Started (c : WsConnection) : Prop where
  once : c.teardown.Once
  writes : c.Writes
  started : c.isWriting = true → 0 < c.started.countP WsOp.isWrite

/-- What a step other than a send does to the number of writes. -/
theorem step_count {e : WsEvent} (honce : c.teardown.Once) (h : step settings c e = some c')
    (hsend : ∀ m, e ≠ .send m) :
    (0 < c.started.countP WsOp.isWrite ∧ 0 < c'.started.countP WsOp.isWrite ∧
        (c.upgraded = true → c'.upgraded = true)) ∨
      (c'.started.countP WsOp.isWrite = c.started.countP WsOp.isWrite ∧ Calm c c') := by
  by_cases hwrote : ∃ result, e = .wrote result
  · left
    obtain ⟨result, rfl⟩ := hwrote
    obtain ⟨t, hcompletes, hact⟩ := step_teardown honce h
    have hle := Teardown.TeardownLemmas.act_writes_le hact
    rw [hcompletes.same] at hle
    cases (step_cases h).2 with
    | wrote _ hany =>
      have hopen : 0 < c.teardown.openWrites := countP_pos_of_any (fun _ h => h) hany
      have hstarted : 0 < c.teardown.writes := Nat.lt_of_lt_of_le hopen honce.openWrites
      exact ⟨hstarted, Nat.lt_of_lt_of_le hstarted hle,
        fun hupgraded => onWriteMessage_upgraded (c := c.without _) hupgraded result⟩
  · right
    have hnot : ∀ result, e ≠ .wrote result := fun r hr => hwrote ⟨r, hr⟩
    obtain ⟨t, hcompletes, hquiet⟩ := step_quiet honce h hsend hnot
    have hsame := Teardown.TeardownLemmas.quiet_writes hquiet
    rw [hcompletes.same] at hsame
    exact ⟨hsame, step_calm h hsend hnot⟩

theorem step_started {e : WsEvent} (hI : Started c) (h : step settings c e = some c') :
    Started c' := by
  refine ⟨step_once hI.once h, step_writes hI.writes h, fun hwriting => ?_⟩
  by_cases hsend : ∃ m, e = .send m
  · obtain ⟨m, rfl⟩ := hsend
    obtain rfl := step_send h
    by_cases hrefused : m.isEmpty = true ∨ c.terminated = true
    · rw [sendMessage_refused hrefused] at hwriting ⊢
      exact hI.started hwriting
    · have hm : m.isEmpty = false := Bool.eq_false_iff.mpr fun h => hrefused (Or.inl h)
      have hrunning : c.terminated = false := Bool.eq_false_iff.mpr fun h => hrefused (Or.inr h)
      have hcount := (sendMessage_taken hI.once.valid hm hrunning).2
      cases hw : c.isWriting with
      | true =>
        have hpos := hI.started hw
        omega
      | false =>
        rw [hw] at hcount
        simp only [Bool.false_eq_true, if_false] at hcount
        omega
  · rcases step_count hI.once h fun m hm => hsend ⟨m, hm⟩ with ⟨_, hpos, _⟩ | ⟨hsame, hcalm⟩
    · exact hpos
    · rw [hsame]
      exact hI.started (hcalm.isWriting.symm.trans hwriting)

theorem order_of_writes (h : c.Writes) (hdropped : c.dropped = false)
    (hshutting : c.shuttingDown = false) (hfailed : c.writeFailed = false) :
    c.accepted = c.completed ++ c.outbound.inFlight ++ c.messageQueue.pending := by
  refine (h.2 ?_).order
  unfold stopped
  rw [hdropped, hshutting, hfailed]
  rfl

/-- A step keeps messages until the upgrade exactly if it is no send that takes
one before. -/
theorem step_keptUntilUpgrade {e : WsEvent} (hI : Started c) (hkept : KeptUntilUpgrade c)
    (h : step settings c e = some c') : KeptUntilUpgrade c' ↔ SentAfterUpgrade c e := by
  have hkept' : (c'.upgraded = false → c'.started.countP WsOp.isWrite = 0) →
      KeptUntilUpgrade c' :=
    fun hearly => ⟨hearly, order_of_writes (step_writes hI.writes h)⟩
  by_cases hsend : ∃ m, e = .send m
  · obtain ⟨m, rfl⟩ := hsend
    obtain rfl := step_send h
    constructor
    · intro hearly hupgraded
      have hzero := hearly.notEarly ((sendMessage_upgraded c m).trans hupgraded)
      by_contra hrefused
      have hm : m.isEmpty = false := Bool.eq_false_iff.mpr fun h => hrefused (Or.inl h)
      have hrunning : c.terminated = false := Bool.eq_false_iff.mpr fun h => hrefused (Or.inr h)
      have hidle : c.isWriting = false := Bool.eq_false_iff.mpr fun hw => by
        have hpos := hI.started hw
        have hnone := hkept.notEarly hupgraded
        omega
      have hcount := (sendMessage_taken hI.once.valid hm hrunning).2
      rw [hzero, hidle] at hcount
      simp only [Bool.false_eq_true, if_false] at hcount
      omega
    · intro hafter
      refine hkept' fun hupgraded => ?_
      rw [sendMessage_upgraded] at hupgraded
      rw [sendMessage_refused (hafter hupgraded)]
      exact hkept.notEarly hupgraded
  · have hafter : SentAfterUpgrade c e := by
      cases e with
      | send m => exact absurd ⟨m, rfl⟩ hsend
      | _ => trivial
    refine ⟨fun _ => hafter, fun _ => hkept' fun hupgraded' => ?_⟩
    rcases step_count hI.once h fun m hm => hsend ⟨m, hm⟩ with
      ⟨hpos, _, hkeeps⟩ | ⟨hsame, hcalm⟩
    · -- A write can only have been started after the upgrade.
      cases hu : c.upgraded with
      | true => cases (hkeeps hu).symm.trans hupgraded'
      | false =>
        have hnone := hkept.notEarly hu
        omega
    · have hupgraded : c.upgraded = false := Bool.eq_false_iff.mpr fun hu =>
        nomatch (hcalm.upgraded hu).symm.trans hupgraded'
      rw [hsame]
      exact hkept.notEarly hupgraded

end UpgradingLemmas

end WsConnection

open WsConnection UpgradingLemmas

/-- Messages are kept until the websocket handshake is done, and written in the
order sent, in exactly those runs in which none is taken before. -/
theorem kept_until_upgrade_iff (settings : Settings) (now : Int) (es : List WsEvent)
    (c : WsConnection) (h : runEvents (step settings) ((init now).run settings) es = some c) :
    AllStates (step settings) KeptUntilUpgrade ((init now).run settings) es ↔
      AllSteps (step settings) SentAfterUpgrade ((init now).run settings) es :=
  allStates_iff (fun _ _ _ => step_started) (fun _ _ _ => step_keptUntilUpgrade)
    ⟨run_once settings now, run_writes settings now, nofun⟩
    ⟨fun _ => rfl, order_of_writes (run_writes settings now)⟩ h

/-- Two messages sent after the handshake. -/
theorem kept_until_upgrade_iff_two :
    AllStates (step defaultSettings) KeptUntilUpgrade ((init 0).run defaultSettings)
      [.send .empty, .sslHandshake (.ok ()), .requestRead (.ok ⟨true, []⟩) 1, .wsHandshake (.ok ()),
        .send (.fromVector [1]), .send (.fromVector [2]), .wrote (.ok ())] :=
  (kept_until_upgrade_iff defaultSettings 0 _ _ rfl).mpr (by decide)

/-- A message sent right after `run` is written while the SSL handshake is still
in progress. -/
theorem written_before_upgrade :
    ∃ c, runEvents (step defaultSettings) ((init 0).run defaultSettings)
        [.send (.fromVector [1])] = some c ∧ c.upgraded = false ∧
      c.started = [.sslHandshake, .write [1]] ∧ ¬KeptUntilUpgrade c :=
  ⟨_, rfl, rfl, rfl, fun hkept => nomatch hkept.notEarly rfl⟩

end Ian.Front
