import Ian.Front.Server
import Mathlib.Data.List.InsertIdx

/-!
# The soft connection limit

`on_read_request` compares the number of all connections with the soft limit at
one moment, and starts the websocket handshake later. Others may come in
meanwhile, and the counter may go far beyond the limit. The connections that
have started the handshake still stay within it (`soft_limit_holds`): the last
of them that was let in has counted the others, too.
-/

namespace Ian.Front

open Ian.Lib Ian.Common

namespace WsConnection

/-- The websocket handshake has been started. -/
def upgrading (c : WsConnection) : Bool := c.started.contains .wsHandshake

namespace OverloadLemmas

variable {c c' : WsConnection} {settings : Settings}

theorem start_upgrading (c : WsConnection) (op : WsOp) (hop : op ≠ .wsHandshake) :
    (c.start op).upgrading = c.upgrading := by
  unfold upgrading start
  simp [hop.symm]

theorem abort_upgrading (c : WsConnection) : c.abort.upgrading = c.upgrading := by
  unfold abort
  split <;> rfl

theorem shutdown_upgrading (c : WsConnection) : c.shutdown.upgrading = c.upgrading := by
  unfold shutdown
  dsimp only
  split
  · rfl
  split
  · rfl
  · exact start_upgrading c.cancelAll _ nofun

theorem handleError_upgrading (c : WsConnection) (ec : ErrorKind) :
    (c.handleError ec).upgrading = c.upgrading := by
  unfold handleError
  split
  · rfl
  cases ec with
  | reset => exact abort_upgrading c
  | canceled => rfl
  | other => exact shutdown_upgrading c

theorem doWriteMessage_upgrading (c : WsConnection) (m : Message) :
    (c.doWriteMessage m).upgrading = c.upgrading := by
  unfold doWriteMessage
  dsimp only
  split
  · rfl
  · exact start_upgrading (c.assignOutbound m) _ nofun

theorem sendMessage_upgrading (c : WsConnection) (m : Message) :
    (c.sendMessage m).upgrading = c.upgrading := by
  unfold sendMessage sendMessageBody
  dsimp only
  split
  · rfl
  split
  · rfl
  split
  · exact doWriteMessage_upgrading { c with accepted := c.accepted ++ [m], isWriting := true } m
  split <;> rfl

theorem onWriteMessage_upgrading (c : WsConnection) (result : Except ErrorKind Unit) :
    (c.onWriteMessage result).upgrading = c.upgrading := by
  cases result with
  | error ec => exact handleError_upgrading { c.assignOutbound .empty with writeFailed := true } ec
  | ok u =>
    unfold onWriteMessage writeQueued
    dsimp only
    split
    · rfl
    · rfl
    · next m queue _ => exact doWriteMessage_upgrading { c.assignOutbound .empty with
        completed := c.completed ++ [c.messageOutbound], messageQueue := queue } m

theorem onSslHandshake_upgrading (c : WsConnection) (result : Except ErrorKind Unit) :
    (c.onSslHandshake result).upgrading = c.upgrading := by
  cases result with
  | error ec => exact abort_upgrading c
  | ok u => exact start_upgrading c .requestRead nofun

theorem onWsHandshake_upgrading (c : WsConnection) (result : Except ErrorKind Unit) :
    (c.onWsHandshake settings result).upgrading = c.upgrading := by
  unfold onWsHandshake
  split
  · rfl
  cases result with
  | error ec => exact shutdown_upgrading c
  | ok u => exact start_upgrading ({ c with upgraded := true }.setTimeout _) .read nofun

theorem takeMessage_upgrading (c : WsConnection) (readlen : Nat) :
    (c.takeMessage settings readlen).upgrading = c.upgrading := by
  have hstart := start_upgrading { c with readBuffer := c.readBuffer.drop readlen } .read nofun
  unfold takeMessage
  dsimp only
  split <;> exact hstart

theorem onRead_upgrading (c : WsConnection) (result : Except ErrorKind Inbound) :
    (c.onRead settings result).upgrading = c.upgrading := by
  cases result with
  | error ec => exact handleError_upgrading c ec
  | ok inbound =>
    have hlimited : ((c.counted inbound).limited settings).upgrading = c.upgrading := by
      unfold limited
      split <;> rfl
    rw [onRead_ok]
    split
    · exact abort_upgrading (c.counted inbound)
    split
    · exact (shutdown_upgrading _).trans hlimited
    · exact (takeMessage_upgrading _ _).trans hlimited

theorem onTimeout_upgrading (c : WsConnection) (state : WaitState) :
    (c.onTimeout state).upgrading = c.upgrading := by
  unfold onTimeout
  split
  · rfl
  · exact abort_upgrading c

theorem onShutdown_upgrading (c : WsConnection) (result : Except ErrorKind Unit) :
    (c.onShutdown result).upgrading = c.upgrading := by
  unfold onShutdown
  split <;> rfl

/-- Only `on_read_request` starts the handshake, and only if the value it has
read is within the limit. -/
theorem onReadRequest_upgrading {result : Except ErrorKind Request} {active : Int}
    (h : (c.onReadRequest settings result active).upgrading = true) :
    c.upgrading = true ∨ active ≤ settings.connectionLimitSoft := by
  cases result with
  | error ec => exact Or.inl ((handleError_upgrading c ec).symm.trans h)
  | ok request =>
    by_cases hfull : active > settings.connectionLimitSoft
    · left
      unfold onReadRequest respond at h
      dsimp only at h
      rw [if_pos hfull, shutdown_upgrading] at h
      split at h <;> exact h
    · exact Or.inr (Int.not_lt.mp hfull)

theorem setTimer_upgrading (c : WsConnection) (t : Timer Unit) (id : TimerId) :
    (c.setTimer t id).upgrading = c.upgrading := by
  cases id <;> rfl

/-- A step other than the handling of a request does not start the
handshake. -/
theorem step_upgrading {e : WsEvent} (h : step settings c e = some c')
    (hrequest : ∀ request active, e ≠ .requestRead (.ok request) active) :
    c'.upgrading = c.upgrading := by
  cases (WsWritingLemmas.step_cases h).2 with
  | send m => exact sendMessage_upgrading c m
  | sslHandshake result => exact onSslHandshake_upgrading (c.without _) result
  | requestRead result active =>
    cases result with
    | error ec => exact handleError_upgrading (c.without _) ec
    | ok request => exact absurd rfl (hrequest request active)
  | wsHandshake result => exact onWsHandshake_upgrading (c.without _) result
  | read result => exact onRead_upgrading (c.without _) result
  | wrote result => exact onWriteMessage_upgrading (c.without _) result
  | shutdownDone result => exact onShutdown_upgrading (c.without _) result
  | tick duration => rfl
  | expire id t => exact setTimer_upgrading c t id
  | timeout id i w t =>
    exact (onTimeout_upgrading _ w.state).trans (setTimer_upgrading c t id)

end OverloadLemmas

end WsConnection

/-- The connection has started the websocket handshake, or is going to: it has
found the counter within the limit. -/
def Client.admitted (soft : Int) (c : Client) : Bool :=
  c.connection.upgrading || c.counted.any fun active => decide (active ≤ soft)

def Server.quota (soft : Int) (s : Server) : Quota := ⟨s.clients.map (Client.admitted soft)⟩

namespace OverloadLemmas

open WsConnection.OverloadLemmas

variable {makeAddress : String → Bool} {settings : Settings} {hard soft : Int} {s s' : Server}
  {c c' : Client}

/-- A step of a connection admits it to nothing. -/
theorem client_admitted {e : WsConnection.WsEvent} (h : c.step settings e = some c')
    (hadmitted : c'.admitted settings.connectionLimitSoft = true) :
    c.admitted settings.connectionLimitSoft = true := by
  have hsame : ∀ {connection e}, c.connection.step settings e = some connection →
      (∀ request active, e ≠ .requestRead (.ok request) active) →
      c' = { c with connection } → c.admitted settings.connectionLimitSoft = true := by
    rintro connection e hstep hrequest rfl
    unfold Client.admitted at hadmitted ⊢
    rw [step_upgrading hstep hrequest] at hadmitted
    exact hadmitted
  unfold Client.step at h
  split at h
  · cases h
  · obtain ⟨connection, hstep, rfl⟩ := Option.map_eq_some_iff.mp h
    exact hsame hstep nofun rfl
  · next request active =>
    split at h
    · next hcounted =>
      obtain ⟨connection, hstep, rfl⟩ := Option.map_eq_some_iff.mp h
      have hupgrading : connection.upgrading = true := by
        unfold Client.admitted at hadmitted
        simpa using hadmitted
      unfold Client.admitted
      rw [hcounted]
      cases (WsConnection.WsWritingLemmas.step_cases hstep).2 with
      | requestRead =>
        rcases onReadRequest_upgrading hupgrading with hbefore | hroom
        · have hbefore : c.connection.upgrading = true := hbefore
          rw [hbefore, Bool.true_or]
        · rw [Option.any_some, decide_eq_true hroom, Bool.or_true]
    · cases h
  · next e _ _ hrequest =>
    split at h
    · obtain ⟨connection, hstep, rfl⟩ := Option.map_eq_some_iff.mp h
      exact hsame hstep (fun request active he => hrequest request active he) rfl
    · cases h

theorem setClient_quota (s : Server) (k : Nat) (c : Client) :
    (s.setClient k c).quota soft = ⟨(s.quota soft).members.set k (c.admitted soft)⟩ := by
  show Quota.mk ((s.clients.set k c).map _) = _
  rw [List.map_set]
  rfl

theorem quota_member {k : Nat} (hget : s.clients[k]? = some c) :
    (s.quota soft).members[k]? = some (c.admitted soft) := by
  show (s.clients.map _)[k]? = _
  rw [List.getElem?_map, hget]
  rfl

/-- `on_read_request` reads the counter, and thereby admits its connection or
not. -/
theorem count_quota (hs : s.Valid) {k : Nat} (hget : s.clients[k]? = some c)
    (h : c.count s.active = some c') :
    Quota.Step soft (s.quota soft) ((s.setClient k c').quota soft) := by
  unfold Client.count at h
  split at h
  · cases h
    rw [setClient_quota]
    by_cases hroom : s.active ≤ soft
    · have hadmitted : Client.admitted soft { c with counted := some s.active } = true := by
        unfold Client.admitted
        rw [Option.any_some, decide_eq_true hroom, Bool.or_true]
      rw [hadmitted]
      refine .grant k ?_
      show ((s.clients.map _).length : Int) ≤ soft
      rw [List.length_map, ← hs.active]
      exact hroom
    · refine Quota.step_set (quota_member hget) fun hadmitted => ?_
      unfold Client.admitted at hadmitted ⊢
      rw [Option.any_some, decide_eq_false hroom, Bool.or_false] at hadmitted
      rw [hadmitted, Bool.true_or]
  · cases h

theorem advance_quota {i : Nat} {l : Listener}
    (h : s.advance makeAddress settings hard i l = some s') :
    Quota.Step soft (s.quota soft) (s'.quota soft) := by
  unfold Server.advance at h
  split at h
  · cases h
  · next e hrunning =>
    cases h
    split
    · have hjoin : ((s.setListener i { l with running := some (e, .made) }).make settings).quota
          soft = ⟨(s.quota soft).members ++ [false]⟩ := by
        show Quota.mk ((s.clients ++ [_]).map _) = _
        rw [List.map_append]
        rfl
      rw [hjoin]
      exact .join
    · exact .stay
  · cases h
    exact .stay
  · cases h
    exact .stay
  · obtain ⟨a, _, rfl⟩ := Option.map_eq_some_iff.mp h
    exact .stay

theorem step_quota {e : Server.Event} (hs : s.Valid)
    (h : s.step makeAddress settings hard e = some s') :
    Quota.Step settings.connectionLimitSoft (s.quota settings.connectionLimitSoft)
      (s'.quota settings.connectionLimitSoft) := by
  cases e with
  | start i e =>
    obtain ⟨l, _, h⟩ := Option.bind_eq_some_iff.mp h
    obtain ⟨l', _, rfl⟩ := Option.map_eq_some_iff.mp h
    exact .stay
  | advance i =>
    obtain ⟨l, _, h⟩ := Option.bind_eq_some_iff.mp h
    exact advance_quota h
  | expire i =>
    obtain ⟨l, _, h⟩ := Option.bind_eq_some_iff.mp h
    obtain ⟨l', _, rfl⟩ := Option.map_eq_some_iff.mp h
    exact .stay
  | count k =>
    obtain ⟨c, hget, h⟩ := Option.bind_eq_some_iff.mp h
    obtain ⟨c', hcount, rfl⟩ := Option.map_eq_some_iff.mp h
    exact count_quota hs hget hcount
  | client k e =>
    obtain ⟨c, hget, h⟩ := Option.bind_eq_some_iff.mp h
    obtain ⟨c', hstep, rfl⟩ := Option.map_eq_some_iff.mp h
    rw [setClient_quota]
    exact Quota.step_set (quota_member hget) (client_admitted hstep)
  | destroy k =>
    unfold Server.step Server.destroy at h
    dsimp only at h
    split at h
    · cases h
      show Quota.Step _ _ ⟨(s.clients.eraseIdx k).map _⟩
      rw [← List.eraseIdx_map]
      exact .leave k
    · cases h
  | tick duration =>
    cases h
    have hquota : ∀ soft, (s.tick duration).quota soft = s.quota soft := by
      intro soft
      show Quota.mk ((s.clients.map _).map _) = _
      rw [List.map_map]
      rfl
    rw [hquota]
    exact .stay

end OverloadLemmas

open OverloadLemmas ServerLemmas

/-- In every run of a server, the live connections that have started the
websocket handshake are within the soft limit. -/
theorem soft_limit_holds (makeAddress : String → Bool) (settings : Settings) (hard : Int)
    (hsoft : 0 ≤ settings.connectionLimitSoft) (n : Nat) (now : Int) (es : List Server.Event)
    (s : Server)
    (h : runEvents (Server.step makeAddress settings hard) (.init n now) es = some s) :
    ((s.clients.countP fun c => c.connection.upgrading : Nat) : Int) ≤
      settings.connectionLimitSoft := by
  obtain ⟨_, hwithin⟩ := run_invariant
    (I := fun s => s.Valid ∧ (s.quota settings.connectionLimitSoft).Within
      settings.connectionLimitSoft)
    (fun s e s' hs hstep => ⟨(step_keeps hs.1 hstep).valid, (step_quota hs.1 hstep).within hs.2⟩)
    ⟨init_valid n now, hsoft⟩ h
  have hcount : (s.clients.countP fun c => c.connection.upgrading) ≤
      (s.quota settings.connectionLimitSoft).members.count true := by
    show _ ≤ (s.clients.map _).count true
    rw [List.count_eq_countP, List.countP_map]
    refine List.countP_mono_left fun c _ hupgrading => ?_
    show (Client.admitted settings.connectionLimitSoft c == true) = true
    unfold Client.admitted
    rw [hupgrading]
    rfl
  exact Int.le_trans (Int.ofNat_le.mpr hcount) hwithin

/-- A client is upgraded with a soft limit of 1, and then a second one comes and
is refused. -/
def overloadedRun : List Server.Event :=
  handled 0 (.run (quietEnv false allCalls)) ++
    handled 0 (.accepted true (quietEnv false allCalls)) ++
    [.client 0 (.sslHandshake (.ok ())), .count 0, .client 0 (.requestRead (.ok ⟨true, []⟩) 1)] ++
    handled 0 (.accepted true (quietEnv false allCalls)) ++
    [.client 1 (.sslHandshake (.ok ())), .count 1, .client 1 (.requestRead (.ok ⟨true, []⟩) 2)]

theorem soft_limit_holds_overloaded :
    ∃ s, runEvents
        (Server.step numericAddress { defaultSettings with connectionLimitSoft := 1 } 100)
        (.init 1 0) overloadedRun = some s ∧
      s.active = 2 ∧ (s.clients.map fun c => c.connection.upgrading) = [true, false] ∧
      ((s.clients.countP fun c => c.connection.upgrading : Nat) : Int) ≤ 1 :=
  ⟨_, rfl, rfl, rfl, soft_limit_holds numericAddress
    { defaultSettings with connectionLimitSoft := 1 } 100 (by decide) 1 0 overloadedRun _ rfl⟩

end Ian.Front
