import Ian.Cluster.Layers
import Ian.Front.WsTeardown

/-!
# The end of both connections

Results about how connections end, for the cluster connection and the websocket
connection alike, over every run.

Main results:
  * `teardown_final`: the socket is closed at most once and at most one SSL
    shutdown is started; once a connection is terminated its queue is empty and
    nothing is written any more.
  * `delivers_nothing_iff`: after that a message is still processed exactly if
    a read that had completed before brings one, since `on_read` does not look
    at `dropped_` and `shutting_down_`.
  * `null_message_iff`: the only null message ever dereferenced is the handshake
    message, which `on_ssl_handshake` sends without having assigned it.
-/

namespace Ian.Cluster.Connection

open Ian.Lib Ian.Common

variable {c c' : Connection} {handshake : Message}

/-- The handler of the event processes no message if the connection is
terminated. -/
def DeliversNothing (handshake : Message) (c : Connection) (e : Event) : Prop :=
  ∀ c', step handshake c e = some c' → c.terminated = true → c'.delivered = c.delivered

/-- A read that completes on a terminated connection brings no end of a frame. -/
def NoLateFrame (c : Connection) : Event → Prop
  | .read (.ok chunk) => c.terminated = true →
    (decode (unfinished c.inMessageLen c.readBuffer ++ chunk)).1 = []
  | _ => True

theorem step_delivered {e : Event} (hlinked : Linked c) (h : step handshake c e = some c') :
    c'.delivered = c.delivered ++ c.deliveries e := by
  obtain ⟨t, hcompletes, hact⟩ := step_teardown hlinked.once hlinked.len h
  have hdelivered := hact.noted.1
  rw [hcompletes.same] at hdelivered
  exact hdelivered

theorem step_deliversNothing {e : Event} (hlinked : Linked c)
    (h : step handshake c e = some c') : DeliversNothing handshake c e ↔ NoLateFrame c e := by
  have hnothing : DeliversNothing handshake c e ↔ (c.terminated = true → c.deliveries e = []) :=
    appends_nothing_iff h (step_delivered hlinked h)
  rw [hnothing]
  cases e with
  | read result =>
    cases result with
    | error ec => exact ⟨fun _ => trivial, fun _ _ => rfl⟩
    | ok chunk => exact imp_congr_right fun _ => List.map_eq_nil_iff
  | _ => exact ⟨fun _ => trivial, fun _ _ => rfl⟩

theorem run_final {es : List Event} (hlinked : Linked c)
    (h : runEvents (step handshake) c es = some c') : Linked c' ∧ c.teardown.Final c'.teardown := by
  refine run_invariant (I := fun s => Linked s ∧ c.teardown.Final s.teardown) ?_
    ⟨hlinked, Teardown.Final.refl _⟩ h
  intro s e s' hI hstep
  have hfinal := ((step_teardown hI.1.once hI.1.len hstep).final hI.1.once).2
  exact ⟨step_linked hI.1 hstep, hI.2.trans hfinal⟩

end Ian.Cluster.Connection

namespace Ian.Front

open Ian.Lib Ian.Common

namespace WsConnection

variable {c c' : WsConnection} {settings : Settings}

/-- The handler of the event processes no message if the connection is
terminated. -/
def DeliversNothing (settings : Settings) (c : WsConnection) (e : WsEvent) : Prop :=
  ∀ c', step settings c e = some c' → c.terminated = true → c'.delivered = c.delivered

/-- A read that completes on a terminated connection brings text, or a message
that the rate limiter refuses. -/
def NoLateMessage (settings : Settings) (c : WsConnection) : WsEvent → Prop
  | .read (.ok inbound) => c.terminated = true →
    (c.counted inbound).rateKill settings = true ∨ inbound.gotBinary = false
  | _ => True

theorem step_once {e : WsEvent} (honce : c.teardown.Once) (h : step settings c e = some c') :
    c'.teardown.Once := ((step_teardown honce h).final honce).1

theorem run_once (settings : Settings) (now : Int) : ((init now).run settings).teardown.Once :=
  ⟨rfl, rfl, rfl, Nat.le_refl 0, Nat.le_refl 0, fun _ => rfl, MessageQueue.valid_init⟩

theorem step_delivered {e : WsEvent} (honce : c.teardown.Once)
    (h : step settings c e = some c') :
    c'.delivered = c.delivered ++ c.deliveries settings e ∧ c'.fault = false := by
  obtain ⟨t, hcompletes, hact⟩ := step_teardown honce h
  obtain ⟨hdelivered, hfault⟩ := hact.noted
  rw [hcompletes.same] at hdelivered
  exact ⟨hdelivered, hfault⟩

theorem step_deliversNothing {e : WsEvent} (honce : c.teardown.Once)
    (h : step settings c e = some c') :
    DeliversNothing settings c e ↔ NoLateMessage settings c e := by
  have hnothing : DeliversNothing settings c e ↔
      (c.terminated = true → c.deliveries settings e = []) :=
    appends_nothing_iff h (step_delivered honce h).1
  rw [hnothing]
  cases e with
  | read result =>
    cases result with
    | error ec => exact ⟨fun _ => trivial, fun _ _ => rfl⟩
    | ok inbound =>
      refine imp_congr_right fun _ => ?_
      show (if _ then _ else _) = [] ↔ _
      rw [← Bool.not_eq_true', ← Bool.or_eq_true]
      split
      · next hrefused => exact ⟨fun _ => hrefused, fun _ => rfl⟩
      · next htaken => exact ⟨fun hnil => (nomatch hnil), fun hrefused => absurd hrefused htaken⟩
  | _ => exact ⟨fun _ => trivial, fun _ _ => rfl⟩

theorem run_final {es : List WsEvent} (honce : c.teardown.Once) (hfault : c.fault = false)
    (h : runEvents (step settings) c es = some c') :
    (c'.teardown.Once ∧ c'.fault = false) ∧ c.teardown.Final c'.teardown := by
  refine run_invariant
    (I := fun s => (s.teardown.Once ∧ s.fault = false) ∧ c.teardown.Final s.teardown) ?_
    ⟨⟨honce, hfault⟩, Teardown.Final.refl _⟩ h
  intro s e s' hI hstep
  have hfinal := ((step_teardown hI.1.1 hstep).final hI.1.1).2
  exact ⟨⟨step_once hI.1.1 hstep, (step_delivered hI.1.1 hstep).2⟩, hI.2.trans hfinal⟩

end WsConnection

open Ian.Cluster

/-- Teardown happens once and is final, in every run of both connections. No
fault means that `do_write_message` is not called with a null message, so that
every call of it starts a write. -/
theorem teardown_final :
    (∀ (handshake : Message) (safeLink : Bool) (es : List Connection.Event) (c : Connection),
      runEvents (Connection.step handshake) (Connection.init.run safeLink) es = some c →
      c.teardown.Once ∧ ∀ es' c', runEvents (Connection.step handshake) c es' = some c' →
        c.teardown.Final c'.teardown ∧ (handshake.isEmpty = false → c'.fault = false)) ∧
    ∀ (settings : Settings) (now : Int) (es : List WsConnection.WsEvent) (c : WsConnection),
      runEvents (WsConnection.step settings) ((WsConnection.init now).run settings) es = some c →
      c.teardown.Once ∧ ∀ es' c', runEvents (WsConnection.step settings) c es' = some c' →
        c.teardown.Final c'.teardown ∧ c'.fault = false := by
  constructor
  · intro handshake safeLink es c hrun
    have hlinked := (Connection.run_final (Connection.run_linked safeLink) hrun).1
    refine ⟨hlinked.once, fun es' c' hrun' => ?_⟩
    refine ⟨(Connection.run_final hlinked hrun').2, fun hhandshake => ?_⟩
    have hquiet : ∀ (es : List Connection.Event),
        es.any (Connection.derefsNull handshake) = false := by
      intro es
      rw [List.any_eq_false]
      intro e _
      unfold Connection.derefsNull
      split <;> simp [hhandshake]
    have hfault := Connection.run_fault (Connection.run_linked safeLink) rfl hrun
    rw [Connection.run_fault hlinked (hfault.trans (hquiet es)) hrun']
    exact hquiet es'
  · intro settings now es c hrun
    have hreached := WsConnection.run_final (WsConnection.run_once settings now) rfl hrun
    refine ⟨hreached.1.1, fun es' c' hrun' => ?_⟩
    have hfinal := WsConnection.run_final hreached.1.1 hreached.1.2 hrun'
    exact ⟨hfinal.2, hfinal.1.2⟩

/-- A cluster connection and a websocket connection that are shut down after a
failed write, and then closed. -/
theorem teardown_final_write_error :
    (∃ es es' c c', runEvents (Connection.step (.fromVector [9])) (Connection.init.run true) es =
        some c ∧ runEvents (Connection.step (.fromVector [9])) c es' = some c' ∧
      c.shuttingDown = true ∧ c'.closes = 1 ∧ c.teardown.Once ∧
      c.teardown.Final c'.teardown) ∧
    ∃ es es' c c', runEvents (WsConnection.step defaultSettings)
        ((WsConnection.init 0).run defaultSettings) es = some c ∧
      runEvents (WsConnection.step defaultSettings) c es' = some c' ∧
      c.shuttingDown = true ∧ c'.closes = 1 ∧ c.teardown.Once ∧
      c.teardown.Final c'.teardown := by
  constructor
  · refine ⟨[.sslHandshake (.ok ()), .handshakeSent (.ok ()), .handshakeRead (.ok [1, 0, 0, 0, 9]),
      .send (.fromVector [1]), .send (.fromVector [2]), .wrote (.error .other)],
      [.send (.fromVector [3]), .shutdownDone (.ok ()), .read (.error .reset)], ?_, ?_, ?run, ?rest,
      ?_, ?_, (teardown_final.1 _ _ _ _ ?run).1, ((teardown_final.1 _ _ _ _ ?run).2 _ _ ?rest).1⟩
    case run => rfl
    case rest => rfl
    all_goals rfl
  · refine ⟨[.sslHandshake (.ok ()), .requestRead (.ok ⟨true, []⟩) 1, .wsHandshake (.ok ()),
      .send (.fromVector [1]), .send (.fromVector [2]), .wrote (.error .other)],
      [.send (.fromVector [3]), .shutdownDone (.ok ()), .read (.error .reset)], ?_, ?_, ?wsRun,
      ?wsRest, ?_, ?_, (teardown_final.2 _ _ _ _ ?wsRun).1,
      ((teardown_final.2 _ _ _ _ ?wsRun).2 _ _ ?wsRest).1⟩
    case wsRun => rfl
    case wsRest => rfl
    all_goals rfl

/-! ## Late messages -/

/-- In every run of either connection, a terminated connection processes no
message exactly if no read completes on it that brings one. -/
theorem delivers_nothing_iff (handshake : Message) (safeLink : Bool)
    (es : List Connection.Event) (c : Connection)
    (hrun : runEvents (Connection.step handshake) (Connection.init.run safeLink) es = some c)
    (settings : Settings) (now : Int) (wsEs : List WsConnection.WsEvent) (w : WsConnection)
    (hwsRun : runEvents (WsConnection.step settings) ((WsConnection.init now).run settings) wsEs =
      some w) :
    (AllSteps (Connection.step handshake) (Connection.DeliversNothing handshake)
        (Connection.init.run safeLink) es ↔
      AllSteps (Connection.step handshake) Connection.NoLateFrame
        (Connection.init.run safeLink) es) ∧
    (AllSteps (WsConnection.step settings) (WsConnection.DeliversNothing settings)
        ((WsConnection.init now).run settings) wsEs ↔
      AllSteps (WsConnection.step settings) (WsConnection.NoLateMessage settings)
        ((WsConnection.init now).run settings) wsEs) :=
  ⟨allSteps_congr (fun _ _ _ => Connection.step_linked)
      (fun _ _ _ => Connection.step_deliversNothing) (Connection.run_linked safeLink) hrun,
    allSteps_congr (I := fun s => s.teardown.Once) (fun _ _ _ => WsConnection.step_once)
      (fun _ _ _ => WsConnection.step_deliversNothing) (WsConnection.run_once settings now) hwsRun⟩

/-- Connections that process a message and are then closed, the read in progress
ending with an error. -/
theorem delivers_nothing_iff_reset :
    AllSteps (Connection.step (.fromVector [9])) (Connection.DeliversNothing (.fromVector [9]))
      (Connection.init.run true) [.sslHandshake (.ok ()), .handshakeSent (.ok ()),
        .handshakeRead (.ok [1, 0, 0, 0, 9]), .read (.ok [1, 0, 0, 0, 7]), .read (.error .reset)] ∧
    AllSteps (WsConnection.step defaultSettings)
      (WsConnection.DeliversNothing defaultSettings)
      ((WsConnection.init 0).run defaultSettings) [.sslHandshake (.ok ()),
        .requestRead (.ok ⟨true, []⟩) 1, .wsHandshake (.ok ()), .read (.ok ⟨[7], true⟩),
        .read (.error .reset)] := by
  have hiff := delivers_nothing_iff (.fromVector [9]) true [.sslHandshake (.ok ()),
    .handshakeSent (.ok ()), .handshakeRead (.ok [1, 0, 0, 0, 9]), .read (.ok [1, 0, 0, 0, 7]),
    .read (.error .reset)] _ rfl defaultSettings 0 [.sslHandshake (.ok ()),
    .requestRead (.ok ⟨true, []⟩) 1, .wsHandshake (.ok ()), .read (.ok ⟨[7], true⟩),
    .read (.error .reset)] _ rfl
  refine ⟨hiff.1.mpr ⟨trivial, ?_⟩, hiff.2.mpr ⟨trivial, ?_⟩⟩
  · rintro _ ⟨⟩
    refine ⟨trivial, ?_⟩
    rintro _ ⟨⟩
    refine ⟨trivial, ?_⟩
    rintro _ ⟨⟩
    refine ⟨nofun, ?_⟩
    rintro _ ⟨⟩
    exact ⟨trivial, fun _ _ => trivial⟩
  · rintro _ ⟨⟩
    refine ⟨trivial, ?_⟩
    rintro _ ⟨⟩
    refine ⟨trivial, ?_⟩
    rintro _ ⟨⟩
    refine ⟨nofun, ?_⟩
    rintro _ ⟨⟩
    exact ⟨trivial, fun _ _ => trivial⟩

/-- Both connections process a message after they have been shut down: the read
had completed when the write failed. -/
theorem delivered_after_shutdown :
    (∃ es c c', runEvents (Connection.step (.fromVector [9])) (Connection.init.run true) es =
        some c ∧ c.shuttingDown = true ∧
      Connection.step (.fromVector [9]) c (.read (.ok [1, 0, 0, 0, 7])) = some c' ∧
      c'.delivered = c.delivered ++ [.fromVector [7]]) ∧
    ∃ es c c', runEvents (WsConnection.step defaultSettings)
        ((WsConnection.init 0).run defaultSettings) es = some c ∧
      c.shuttingDown = true ∧
      WsConnection.step defaultSettings c (.read (.ok ⟨[7], true⟩)) = some c' ∧
      c'.delivered = c.delivered ++ [.fromVector [7]] := by
  constructor
  · exact ⟨[.sslHandshake (.ok ()), .handshakeSent (.ok ()), .handshakeRead (.ok [1, 0, 0, 0, 9]),
      .send (.fromVector [1]), .wrote (.error .other)], _, _, rfl, rfl, rfl, rfl⟩
  · exact ⟨[.sslHandshake (.ok ()), .requestRead (.ok ⟨true, []⟩) 1, .wsHandshake (.ok ()),
      .send (.fromVector [1]), .wrote (.error .other)], _, _, rfl, rfl, rfl, rfl⟩

/-! ## Null messages -/

theorem derefsNull_empty (e : Connection.Event) :
    Connection.derefsNull .empty e = true ↔ e = .sslHandshake (.ok ()) := by
  cases e with
  | sslHandshake result => cases result <;> simp [Connection.derefsNull, Message.isEmpty,
      Message.empty]
  | _ => simp [Connection.derefsNull]

/-- The cluster connection as it stands dereferences a null message exactly when
an SSL handshake succeeds; the websocket connection never does. -/
theorem null_message_iff (safeLink : Bool) (es : List Connection.Event) (c : Connection)
    (hrun : runEvents (Connection.step .empty) (Connection.init.run safeLink) es = some c)
    (settings : Settings) (now : Int) (wsEs : List WsConnection.WsEvent) (w : WsConnection)
    (hwsRun : runEvents (WsConnection.step settings) ((WsConnection.init now).run settings) wsEs =
      some w) :
    (c.fault = false ↔ Connection.Event.sslHandshake (.ok ()) ∉ es) ∧ w.fault = false := by
  refine ⟨?_, (WsConnection.run_final (WsConnection.run_once settings now) rfl hwsRun).1.2⟩
  rw [Connection.run_fault (Connection.run_linked safeLink) rfl hrun, List.any_eq_false]
  constructor
  · intro hall hmem
    exact hall _ hmem ((derefsNull_empty _).mpr rfl)
  · intro hnone e he hnull
    rw [(derefsNull_empty e).mp hnull] at he
    exact hnone he

/-- A cluster connection whose SSL handshake fails, and a websocket connection
that sends a message. -/
theorem null_message_iff_refused :
    ∃ c w, runEvents (Connection.step .empty) (Connection.init.run true)
        [.send (.fromVector [1]), .sslHandshake (.error .other)] = some c ∧
      runEvents (WsConnection.step defaultSettings)
        ((WsConnection.init 0).run defaultSettings) [.send (.fromVector [1]),
          .send .empty, .wrote (.ok ())] = some w ∧
      c.fault = false ∧ w.fault = false := by
  refine ⟨_, _, rfl, rfl, ?_⟩
  have hiff := null_message_iff true [.send (.fromVector [1]), .sslHandshake (.error .other)] _ rfl
    defaultSettings 0 [.send (.fromVector [1]), .send .empty, .wrote (.ok ())] _ rfl
  exact ⟨hiff.1.mpr (by simp), hiff.2⟩

/-- As soon as the SSL handshake succeeds, `on_ssl_handshake` asks the null
message for its size. -/
theorem handshake_message_null :
    ∃ c, runEvents (Connection.step .empty) (Connection.init.run true) [.sslHandshake (.ok ())] =
      some c ∧ c.messageOutbound.isEmpty = true ∧ c.fault = true :=
  ⟨_, rfl, rfl, rfl⟩

end Ian.Front
