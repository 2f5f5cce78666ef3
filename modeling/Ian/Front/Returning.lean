import Ian.Common.Returning
import Ian.Front.WsAcceptor

/-!
# Both acceptors come back

Both acceptors wait for 10 s when they cannot open, and the websocket acceptor for
5 s at the hard limit and for 20 ms above half of it. What they wait for succeeds as
soon as the calls of `open` do and the limit is not reached
(`acceptors_come_back`).
-/

namespace Ian.Front

open Ian.Lib Ian.Common Ian.Cluster Acceptor

/-- All calls of `open` succeed. -/
def opens (config : ListenConfig) (calls : OpenCalls) : Bool :=
  !config.reuseAddr.getD false && calls.openSocket && calls.bindTo && calls.listenOn

theorem opens_iff {config : ListenConfig} {calls : OpenCalls} : opens config calls = true ↔
    config.reuseAddr.getD false = false ∧ calls.openSocket = true ∧ calls.bindTo = true ∧
      calls.listenOn = true := by
  simp [opens, and_assoc]

/-- Nothing is configured. -/
def defaultConfig : ListenConfig := ⟨none, none, none, none⟩

/-- `open` gets to `accept_next`, if it does not throw. -/
theorem openWith_opens {η : Type} {a : Acceptor η} (hclosed : a.acceptor = .closed) {retry : η}
    {acceptNext : Acceptor η → Acceptor η} {config : ListenConfig} {calls : OpenCalls}
    (hopens : opens config calls = true) (e : Endpoint) :
    a.openWith retry acceptNext (config.reuseAddr.getD false) e calls =
      acceptNext { a with acceptor := .listening e } := by
  obtain ⟨hreuse, hopen, hbind, hlisten⟩ := opens_iff.mp hopens
  rw [AcceptorLemmas.openWith_closed hclosed, hreuse, hopen, hbind, hlisten]
  rfl

namespace ClusterAcceptorLemmas

open AcceptorLemmas ClusterAcceptor Ian.Cluster.ClusterAcceptorLemmas

variable {makeAddress : String → Bool} {a : Acceptor ClusterTimer} {env : ClusterEnv}

theorem openAcceptor_soon (h : a.Running) : Soon a.now (openAcceptor makeAddress env a) := by
  have hrunning : { a with safeLink := env.config.safeLink.getD false }.Running :=
    ⟨h.accepting, h.waits, h.started, h.crashed⟩
  have hnext : ∀ acceptor, Soon a.now (acceptNext
      { a with safeLink := env.config.safeLink.getD false, acceptor }) :=
    fun _ => asyncAccept_soon ⟨h.accepting, h.waits, h.started, h.crashed⟩
  unfold openAcceptor
  dsimp only
  split
  · exact throw_soon hrunning
  · exact openWith_soon hnext _ _ _

theorem onAccept_soon (h : a.Running) (ok : Bool) : Soon a.now (onAccept env ok a) := by
  unfold onAccept
  split
  · split
    · exact throw_soon h
    · exact asyncAccept_soon ⟨h.accepting, h.waits, h.started, h.crashed⟩
  · exact asyncAccept_soon ⟨h.accepting, h.waits, h.started, h.crashed⟩

theorem openAcceptor_accepts (hclosed : a.acceptor = .closed)
    (hopens : opens env.config env.calls = true)
    (hcrashed : (openAcceptor makeAddress env a).crashed = false) :
    0 < (openAcceptor makeAddress env a).accepting := by
  unfold openAcceptor at hcrashed ⊢
  dsimp only at hcrashed ⊢
  split at hcrashed
  · cases hcrashed
  · next haddress =>
    rw [if_neg haddress, openWith_opens (a := { a with
      safeLink := env.config.safeLink.getD false }) hclosed hopens]
    exact Nat.succ_pos _

theorem handlers_returning (haddress : makeAddress "127.0.0.1" = true) :
    (handlers makeAddress).Returning needsClosed callsOpen (opensRight makeAddress)
      (throws makeAddress) (fun env => opens env.config env.calls) where
  lawful := handlers_lawful
  timely :=
    { openAcceptor := fun _ _ h => openAcceptor_soon h
      onTimer := fun _ _ _ h => openAcceptor_soon h
      onAccept := fun _ ok _ h => onAccept_soon h ok }
  crashed _ _ _ ha hstep := step_crashed ha hstep
  listening _ _ _ ha hl hright hstep := step_listening ha hl hright hstep
  accepts _ _ _ _ hclosed hgood hcrashed := openAcceptor_accepts (hclosed rfl) hgood hcrashed
  possible := by
    refine ⟨⟨defaultConfig, allCalls, (true, true)⟩, rfl, fun a i _ => ?_⟩
    have hendpoint : makeAddress (defaultConfig.endpoint "127.0.0.1" 17001).address = true :=
      haddress
    constructor
    · simp [throws, hendpoint]
    · unfold callsOpen
      dsimp only
      split
      · simp only [Option.all_some, opensRight, hendpoint, Bool.true_and]
        rfl
      · rfl

end ClusterAcceptorLemmas

namespace WsAcceptor

/-- All calls of `open` succeed, and the limit is not reached. -/
def good (env : WsEnv) : Bool :=
  opens env.config env.calls && decide (env.active < env.connectionLimitHard) &&
    decide (env.activeNext < env.connectionLimitHard)

end WsAcceptor

namespace WsAcceptorLemmas

open AcceptorLemmas WsAcceptor

variable {makeAddress : String → Bool} {a : Acceptor WsTimer} {env : WsEnv}

theorem good_iff : good env = true ↔ opens env.config env.calls = true ∧
    env.active < env.connectionLimitHard ∧ env.activeNext < env.connectionLimitHard := by
  simp [good, and_assoc]

theorem acceptNext_soon (h : a.Running) : Soon a.now (acceptNext env a) := by
  have hrunning : ∀ calls acceptor, { a with acceptCalls := calls, acceptor }.Running :=
    fun _ _ => ⟨h.accepting, h.waits, h.started, h.crashed⟩
  unfold acceptNext
  dsimp only
  split
  · split
    · exact throw_soon (hrunning _ .closed)
    · exact wait_soon _ (by decide) _
  · exact asyncAccept_soon (hrunning _ a.acceptor)

theorem openAcceptor_soon (h : a.Running) : Soon a.now (openAcceptor makeAddress env a) := by
  have hnext : ∀ acceptor, Soon a.now (acceptNext env { a with acceptor }) :=
    fun _ => acceptNext_soon ⟨h.accepting, h.waits, h.started, h.crashed⟩
  unfold openAcceptor
  dsimp only
  split
  · exact throw_soon h
  · exact openWith_soon hnext _ _ _

theorem acceptLater_soon (h : a.Running) : Soon a.now (acceptLater env a) := by
  unfold acceptLater
  split
  · exact wait_soon _ (by decide) _
  · exact acceptNext_soon h

theorem onAccept_soon (h : a.Running) (ok : Bool) : Soon a.now (onAccept env ok a) := by
  have hmade : { a with made := a.made + 1 }.Running :=
    ⟨h.accepting, h.waits, h.started, h.crashed⟩
  unfold onAccept
  split
  · split
    · exact throw_soon h
    · exact acceptLater_soon hmade
  · exact acceptLater_soon h

theorem onTimerReopen_soon (h : a.Running) : Soon a.now (onTimerReopen makeAddress env a) := by
  unfold onTimerReopen
  split
  · exact wait_soon _ (by decide) _
  · exact openAcceptor_soon h

theorem acceptNext_accepts (hgood : good env = true) : 0 < (acceptNext env a).accepting := by
  have hlimit := (good_iff.mp hgood).2.2
  unfold acceptNext
  dsimp only
  rw [if_neg (Int.not_le.mpr hlimit)]
  exact Nat.succ_pos _

theorem openAcceptor_accepts (hclosed : a.acceptor = .closed) (hgood : good env = true)
    (hcrashed : (openAcceptor makeAddress env a).crashed = false) :
    0 < (openAcceptor makeAddress env a).accepting := by
  unfold openAcceptor at hcrashed ⊢
  dsimp only at hcrashed ⊢
  split at hcrashed
  · cases hcrashed
  · next haddress =>
    rw [if_neg haddress, openWith_opens hclosed (good_iff.mp hgood).1]
    exact acceptNext_accepts hgood

theorem onTimerReopen_accepts (hclosed : a.acceptor = .closed) (hgood : good env = true)
    (hcrashed : (onTimerReopen makeAddress env a).crashed = false) :
    0 < (onTimerReopen makeAddress env a).accepting := by
  have hlimit := (good_iff.mp hgood).2.1
  unfold onTimerReopen at hcrashed ⊢
  rw [if_neg (Int.not_le.mpr hlimit)] at hcrashed ⊢
  exact openAcceptor_accepts hclosed hgood hcrashed

/-- Everything is well. -/
def openEnv : WsEnv := { quietEnv false allCalls with config := defaultConfig }

theorem openEnv_throws (haddress : makeAddress "0.0.0.0" = true) :
    openThrows makeAddress openEnv = false := by
  have hendpoint : makeAddress (openEnv.config.endpoint "0.0.0.0" 7011).address = true := haddress
  rw [openThrows, hendpoint]
  rfl

theorem openEnv_prompt (haddress : makeAddress "0.0.0.0" = true) (a : Acceptor WsTimer) (i : Nat) :
    a.Prompt callsOpen (opensRight makeAddress) (throws makeAddress) (.timer i openEnv) := by
  have hthrows := openEnv_throws haddress
  have hright : opensRight makeAddress openEnv = true := by
    rw [opensRight, hthrows]
    rfl
  unfold Prompt throws callsOpen
  dsimp only
  cases a.timer.take i with
  | none => exact ⟨rfl, rfl⟩
  | some taken =>
    obtain ⟨⟨handler, state⟩, timer⟩ := taken
    cases handler with
    | openAcceptor => exact ⟨hthrows, hright⟩
    | acceptNext => exact ⟨rfl, rfl⟩
    | onTimerReopen => exact ⟨by simp [hthrows], hright⟩

theorem handlers_returning (haddress : makeAddress "0.0.0.0" = true) :
    (handlers makeAddress).Returning needsClosed callsOpen (opensRight makeAddress)
      (throws makeAddress) good where
  lawful := handlers_lawful
  timely :=
    { openAcceptor := fun _ _ h => openAcceptor_soon h
      onTimer := fun k _ _ h => by
        cases k with
        | openAcceptor => exact openAcceptor_soon h
        | acceptNext => exact acceptNext_soon h
        | onTimerReopen => exact onTimerReopen_soon h
      onAccept := fun _ ok _ h => onAccept_soon h ok }
  crashed _ _ _ ha hstep := step_crashed ha hstep
  listening _ _ _ ha hl hright hstep := step_listening ha hl hright hstep
  accepts k _ _ _ hclosed hgood hcrashed := by
    cases k with
    | openAcceptor => exact openAcceptor_accepts (hclosed rfl) hgood hcrashed
    | acceptNext => exact acceptNext_accepts hgood
    | onTimerReopen => exact onTimerReopen_accepts (hclosed rfl) hgood hcrashed
  possible := ⟨openEnv, rfl, fun a i _ => openEnv_prompt haddress a i⟩

end WsAcceptorLemmas

/-- In every run of both acceptors whose calls do not make `open` go wrong, an
acceptor that has been started and has not died always gets to an accept on a
listening socket: with at most `k` attempts that fail, it takes at most `3 (k + 1)`
steps and `10 (k + 1)` s. -/
theorem acceptors_come_back (makeAddress : String → Bool) (now : Int)
    (hws : makeAddress "0.0.0.0" = true) (hcluster : makeAddress "127.0.0.1" = true) :
    (WsAcceptor.handlers makeAddress).ComesBack WsAcceptor.callsOpen
      (WsAcceptor.opensRight makeAddress) (WsAcceptor.throws makeAddress) WsAcceptor.good now ∧
    (ClusterAcceptor.handlers makeAddress).ComesBack ClusterAcceptor.callsOpen
      (ClusterAcceptor.opensRight makeAddress) (ClusterAcceptor.throws makeAddress)
      (fun env => opens env.config env.calls) now :=
  ⟨(WsAcceptorLemmas.handlers_returning hws).comesBack now,
    (ClusterAcceptorLemmas.handlers_returning hcluster).comesBack now⟩

/-- The port is taken at first. -/
theorem acceptors_come_back_taken :
    ∃ a, runEvents (WsAcceptor.handlers numericAddress).step (init 0)
        [.run (quietEnv false { allCalls with openSocket := false })] = some a ∧
      a.acceptor = .closed ∧
      EndsWithin (rationed (WsAcceptor.handlers numericAddress).step (Event.fails WsAcceptor.good))
        (fun s e => s.1.Prompt WsAcceptor.callsOpen (WsAcceptor.opensRight numericAddress)
          (WsAcceptor.throws numericAddress) e)
        (fun s => 0 < s.1.accepting ∧ s.1.acceptor.isListening = true ∧
          s.1.now ≤ a.now + seconds (10 * (2 + 1))) (a, 2) 9 := by
  refine ⟨_, rfl, rfl, (acceptors_come_back numericAddress 0 (by decide) (by decide)).1
    [.run (quietEnv false { allCalls with openSocket := false })] _ 2 ?right rfl rfl rfl⟩
  case right => decide +kernel

end Ian.Front
