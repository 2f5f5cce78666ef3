import Ian.Front.Overload

/-!
# The connection limits across reloads

The limits and the other settings are configuration values, and a reload changes
them while connections are open. Nobody is closed because of that. What can be
said is that the number of connections stays within the highest limit there was,
and that after the limits have been lowered it does not grow but by one for each
listener (`limits_reloaded`).
-/

namespace Ian.Front

open Ian.Lib Ian.Common Acceptor

/-- A step of one thread with the values of the configuration that it reads. -/
structure ReloadedEvent where
  settings : Settings
  connectionLimitHard : Int
  event : Server.Event

namespace Server

/-- A server whose configuration may have been loaded anew before each step. -/
def reloadedStep (makeAddress : String → Bool) (s : Server) (e : ReloadedEvent) : Option Server :=
  s.step makeAddress e.settings e.connectionLimitHard e.event

end Server

/-- The limits the step reads are not higher than these. -/
def ReloadedEvent.Under (soft hard : Int) (e : ReloadedEvent) : Prop :=
  e.settings.connectionLimitSoft ≤ soft ∧ e.connectionLimitHard ≤ hard

instance (soft hard : Int) (e : ReloadedEvent) : Decidable (e.Under soft hard) :=
  inferInstanceAs (Decidable (_ ∧ _))

namespace ReloadingLemmas

open ServerLemmas OverloadLemmas WsConnection.OverloadLemmas WsAcceptorLemmas

variable {makeAddress : String → Bool} {settings : Settings} {soft hard limit : Int}
  {s s' : Server}

/-! ## The hard limit -/

/-- The last stage of a handler, with a limit that is not higher than the one the
gate is about. -/
theorem finish_under (hle : hard ≤ limit) (hs : s.Valid) {i : Nat} {l : Listener}
    (hget : s.listeners[i]? = some l) {e : Acceptor.Event WsEnv} {active activeNext : Int}
    (hrunning : l.running = some (e, .decided active activeNext)) {a : Acceptor WsTimer}
    (ha : (WsAcceptor.handlers makeAddress).step l.acceptor (withCounts hard active activeNext e) =
      some a) : Keeps limit s (s.setListener i ⟨a, none⟩) := by
  have hl := hs.listeners l (List.mem_of_getElem? hget)
  refine setListener_keeps hs hget (finish_spec hl hrunning ha).1 fun hcommitted => ?_
  have hpos : 0 < a.accepting := of_decide_eq_true hcommitted
  have hroom := step_accepting hl.chained (hl.handler e _ hrunning) ha hpos
  unfold Listener.committed
  rw [hrunning]
  exact decide_eq_true (Int.lt_of_lt_of_le hroom hle)

/-- Only the last stage of a handler reads the limit. -/
theorem advance_hard {i : Nat} {l : Listener}
    (hearly : ∀ e active activeNext, l.running ≠ some (e, .decided active activeNext))
    (hard limit : Int) : s.advance makeAddress settings hard i l =
      s.advance makeAddress settings limit i l := by
  unfold Server.advance
  split
  · rfl
  · rfl
  · rfl
  · rfl
  · next e active activeNext hrunning => exact absurd hrunning (hearly e active activeNext)

theorem step_under (hle : hard ≤ limit) (hs : s.Valid) {e : Server.Event}
    (h : s.step makeAddress settings hard e = some s') : Keeps limit s s' := by
  cases e with
  | advance i =>
    obtain ⟨l, hget, hadvance⟩ := Option.bind_eq_some_iff.mp h
    by_cases hlast : ∃ e active activeNext, l.running = some (e, .decided active activeNext)
    · obtain ⟨e, active, activeNext, hrunning⟩ := hlast
      unfold Server.advance at hadvance
      rw [hrunning] at hadvance
      obtain ⟨a, ha, rfl⟩ := Option.map_eq_some_iff.mp hadvance
      exact finish_under hle hs hget hrunning ha
    · have hearly : ∀ e active activeNext, l.running ≠ some (e, .decided active activeNext) :=
        fun e active activeNext hrunning => hlast ⟨e, active, activeNext, hrunning⟩
      rw [advance_hard hearly hard limit] at hadvance
      exact advance_keeps hs hget hadvance
  | start i e =>
    have hsame : s.step makeAddress settings limit (.start i e) = some s' := h
    exact step_keeps hs hsame
  | expire i =>
    have hsame : s.step makeAddress settings limit (.expire i) = some s' := h
    exact step_keeps hs hsame
  | count k =>
    have hsame : s.step makeAddress settings limit (.count k) = some s' := h
    exact step_keeps hs hsame
  | client k e =>
    have hsame : s.step makeAddress settings limit (.client k e) = some s' := h
    exact step_keeps hs hsame
  | destroy k =>
    have hsame : s.step makeAddress settings limit (.destroy k) = some s' := h
    exact step_keeps hs hsame
  | tick duration =>
    have hsame : s.step makeAddress settings limit (.tick duration) = some s' := h
    exact step_keeps hs hsame

/-! ## The soft limit -/

/-- A step that handles no request reads no limit. -/
theorem client_other {c c' : Client} {e : WsConnection.WsEvent}
    (hrequest : ∀ request active, e ≠ .requestRead (.ok request) active)
    (h : c.step settings e = some c') : c'.admitted soft = c.admitted soft := by
  have hsame : ∀ {e connection}, c.connection.step settings e = some connection →
      (∀ request active, e ≠ .requestRead (.ok request) active) →
      Client.admitted soft { c with connection } = c.admitted soft := by
    intro e connection hstep hrequest
    unfold Client.admitted
    dsimp only
    rw [step_upgrading hstep hrequest]
  unfold Client.step at h
  split at h
  · cases h
  · obtain ⟨connection, hstep, rfl⟩ := Option.map_eq_some_iff.mp h
    exact hsame hstep (fun request active => WsConnection.WsEvent.noConfusion)
  · next request active => exact absurd rfl (hrequest request active)
  · split at h
    · obtain ⟨connection, hstep, rfl⟩ := Option.map_eq_some_iff.mp h
      exact hsame hstep hrequest
    · cases h

/-- A request is let in by a limit that is not higher than the one the quota is
about. -/
theorem client_under {c c' : Client} (hle : settings.connectionLimitSoft ≤ soft)
    {e : WsConnection.WsEvent} (h : c.step settings e = some c')
    (hadmitted : c'.admitted soft = true) : c.admitted soft = true := by
  by_cases hrequest : ∃ request active, e = .requestRead (.ok request) active
  · obtain ⟨request, active, rfl⟩ := hrequest
    unfold Client.step at h
    dsimp only at h
    split at h
    · next hcounted =>
      obtain ⟨connection, hstep, rfl⟩ := Option.map_eq_some_iff.mp h
      have hupgrading : connection.upgrading = true := by
        unfold Client.admitted at hadmitted
        simpa using hadmitted
      unfold Client.admitted
      rw [hcounted]
      cases (WsConnection.WsWritingLemmas.step_cases hstep).2 with
      | requestRead =>
        rcases onReadRequest_upgrading hupgrading with hbefore | hroom
        · have hbefore : c.connection.upgrading = true := hbefore
          rw [hbefore, Bool.true_or]
        · rw [Option.any_some, decide_eq_true (Int.le_trans hroom hle), Bool.or_true]
    · cases h
  · rw [client_other (fun request active he => hrequest ⟨request, active, he⟩) h] at hadmitted
    exact hadmitted

theorem quota_under (hle : settings.connectionLimitSoft ≤ soft) (hs : s.Valid) {e : Server.Event}
    (h : s.step makeAddress settings hard e = some s') :
    Quota.Step soft (s.quota soft) (s'.quota soft) := by
  cases e with
  | start i e =>
    obtain ⟨l, _, h⟩ := Option.bind_eq_some_iff.mp h
    obtain ⟨l', _, rfl⟩ := Option.map_eq_some_iff.mp h
    exact .stay
  | advance i =>
    obtain ⟨l, _, h⟩ := Option.bind_eq_some_iff.mp h
    exact advance_quota h
  | expire i =>
    obtain ⟨l, _, h⟩ := Option.bind_eq_some_iff.mp h
    obtain ⟨l', _, rfl⟩ := Option.map_eq_some_iff.mp h
    exact .stay
  | count k =>
    obtain ⟨c, hget, h⟩ := Option.bind_eq_some_iff.mp h
    obtain ⟨c', hcount, rfl⟩ := Option.map_eq_some_iff.mp h
    exact count_quota hs hget hcount
  | client k e =>
    obtain ⟨c, hget, h⟩ := Option.bind_eq_some_iff.mp h
    obtain ⟨c', hstep, rfl⟩ := Option.map_eq_some_iff.mp h
    rw [setClient_quota]
    exact Quota.step_set (quota_member hget) (client_under hle hstep)
  -- What is left reads no setting at all.
  | destroy k =>
    have hsame : s.step makeAddress { settings with connectionLimitSoft := soft } hard
      (.destroy k) = some s' := h
    exact step_quota hs hsame
  | tick duration =>
    have hsame : s.step makeAddress { settings with connectionLimitSoft := soft } hard
      (.tick duration) = some s' := h
    exact step_quota hs hsame

/-! ## Runs -/

theorem upgrading_le_quota (soft : Int) (s : Server) :
    (s.clients.countP fun c => c.connection.upgrading) ≤ (s.quota soft).members.count true := by
  show _ ≤ (s.clients.map _).count true
  rw [List.count_eq_countP, List.countP_map]
  refine List.countP_mono_left fun c _ hupgrading => ?_
  show (Client.admitted soft c == true) = true
  unfold Client.admitted
  rw [hupgrading]
  rfl

theorem keeps_listeners (h : Keeps limit s s') : s'.listeners.length = s.listeners.length := by
  have hdoors := h.gate.doors
  unfold Server.gate at hdoors
  dsimp only at hdoors
  rwa [List.length_map, List.length_map] at hdoors

/-- Whatever has been configured, the counter is right. -/
theorem run_valid {n : Nat} {now : Int} {es : List ReloadedEvent}
    (h : runEvents (Server.reloadedStep makeAddress) (.init n now) es = some s) :
    s.Valid ∧ s.listeners.length = n := by
  refine run_invariant (I := fun s => s.Valid ∧ s.listeners.length = n)
    (fun s e s' hs hstep => ?_) ⟨init_valid n now, List.length_replicate⟩ h
  have hkeeps := step_under (Int.le_refl e.connectionLimitHard) hs.1 hstep
  exact ⟨hkeeps.valid, (keeps_listeners hkeeps).trans hs.2⟩

/-- What holds as long as the limits are not higher than these. -/
structure Within (soft hard : Int) (n : Nat) (s : Server) : Prop where
  valid : s.Valid
  listeners : s.listeners.length = n
  gate : (s.gate hard).Bounded hard
  quota : (s.quota soft).Within soft

theorem step_within {n : Nat} (hs : Within soft hard n s) {e : ReloadedEvent}
    (hunder : e.Under soft hard) (h : s.reloadedStep makeAddress e = some s') :
    Within soft hard n s' := by
  have hkeeps := step_under hunder.2 hs.valid h
  exact ⟨hkeeps.valid, (keeps_listeners hkeeps).trans hs.listeners, hkeeps.gate.bounded hs.gate,
    (quota_under hunder.1 hs.valid h).within hs.quota⟩

/-- Any state is within limits that are high enough. -/
theorem valid_within {n : Nat} (hs : s.Valid) (hlisteners : s.listeners.length = n)
    (hsoft : s.active ≤ soft) (hhard : s.active + 1 ≤ hard) : Within soft hard n s := by
  have hactive := hs.active
  refine ⟨hs, hlisteners, ?_, ?_⟩
  · have hdoors := List.count_le_length (a := true) (l := (s.gate hard).committed)
    show (s.clients.length : Int) + (s.gate hard).committed.count true < _
    omega
  · have hall := List.count_le_length (a := true) (l := (s.quota soft).members)
    have hmembers : (s.quota soft).members.length = s.clients.length := List.length_map _
    show ((s.quota soft).members.count true : Int) ≤ soft
    omega

end ReloadingLemmas

open ReloadingLemmas

/-- After any run with any configurations, as long as the limits that are read are
not higher than `soft` and `hard`: there is never more than one connection for each
listener beyond the larger of the hard limit and what there was, and no more
connections have started the websocket handshake than the soft limit allows, or
than there were connections. -/
theorem limits_reloaded (makeAddress : String → Bool) (n : Nat) (now : Int)
    (es es' : List ReloadedEvent) (s s' : Server) (soft hard : Int)
    (h : runEvents (Server.reloadedStep makeAddress) (.init n now) es = some s)
    (hunder : AllSteps (Server.reloadedStep makeAddress) (fun _ e => e.Under soft hard) s es')
    (h' : runEvents (Server.reloadedStep makeAddress) s es' = some s') :
    s'.active ≤ max (hard - 1) s.active + n ∧
      ((s'.clients.countP fun c => c.connection.upgrading : Nat) : Int) ≤ max soft s.active := by
  obtain ⟨hvalid, hlisteners⟩ := run_valid h
  have hwithin : Within (max soft s.active) (max hard (s.active + 1)) n s' := by
    refine run_invariant_of (fun s e s' hs hunder hstep => step_within hs ?_ hstep)
      (valid_within hvalid hlisteners (Int.le_max_right _ _) (Int.le_max_right _ _)) hunder h'
    exact ⟨Int.le_trans hunder.1 (Int.le_max_left _ _),
      Int.le_trans hunder.2 (Int.le_max_left _ _)⟩
  constructor
  · have hactive := hwithin.valid.active
    have hgate : (s'.clients.length : Int) + _ < max hard (s.active + 1) +
      ((s'.listeners.map _).length : Nat) := hwithin.gate
    rw [List.length_map, hwithin.listeners] at hgate
    omega
  · exact Int.le_trans (Int.ofNat_le.mpr (upgrading_le_quota _ s')) hwithin.quota

/-- Steps under one configuration. -/
def configured (soft hard : Int) (es : List Server.Event) : List ReloadedEvent :=
  es.map (ReloadedEvent.mk ⟨soft, 100, 32768, 3, 30⟩ hard)

/-- Two listeners arm an accept each, the hard limit is lowered to 1, and then both
accepts complete. -/
theorem limits_reloaded_lowered :
    ∃ s s', runEvents (Server.reloadedStep numericAddress) (.init 2 0)
        (configured 1000 100 (handled 0 (.run (quietEnv false allCalls)) ++
          handled 1 (.run (quietEnv false allCalls)))) = some s ∧
      runEvents (Server.reloadedStep numericAddress) s
        (configured 0 1 (handled 0 (.accepted true (quietEnv false allCalls)) ++
          handled 1 (.accepted true (quietEnv false allCalls)))) = some s' ∧
      s'.active = 2 ∧ s'.active ≤ max (1 - 1) 0 + (2 : Nat) := by
  refine ⟨_, _, rfl, rfl, rfl, (limits_reloaded numericAddress 2 0 (configured 1000 100
    (handled 0 (.run (quietEnv false allCalls)) ++ handled 1 (.run (quietEnv false allCalls))))
    (configured 0 1 (handled 0 (.accepted true (quietEnv false allCalls)) ++
      handled 1 (.accepted true (quietEnv false allCalls)))) _ _ 0 1 rfl ?under rfl).1⟩
  case under => decide +kernel

end Ian.Front
