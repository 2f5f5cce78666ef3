import Ian.Cluster.Acceptor

/-!
# The websocket acceptor

`server/front/src/ws/WsAcceptor.cpp`. It differs from the cluster acceptor by
the connection limit: at the hard limit it closes for a while, and above half of
it, it takes its time.

`open` goes wrong in two ways, here and in the cluster acceptor. It sets
`reuse_addr` on a socket that is not open yet, which always fails, and the
`close` that cleans up after a failed `bind` or `listen` overwrites the error
with its own success, so that `open` goes on to accept on a closed socket.
`opens_right_iff` says exactly when it does not.

A handler that makes a call without an `error_code` dies when the call fails.
`chains_go_on_iff` says that this is the only way a chain ends.
-/

namespace Ian.Front

open Ian.Lib Ian.Common Acceptor

/-- What the timer of a websocket acceptor waits for. -/
inductive WsTimer where
  | openAcceptor
  | acceptNext
  | onTimerReopen
deriving DecidableEq, Repr

/-- The outcomes of the calls a handler of `WsAcceptor` makes, and the global
values it reads. -/
structure WsEnv where
  config : ListenConfig
  calls : OpenCalls
  /-- `acceptor_.close()` in `accept_next`. -/
  close : Bool
  /-- The two calls of `remote_endpoint()`. -/
  remoteEndpoint : Bool × Bool
  /-- `set_option(no_delay)`. -/
  noDelay : Bool
  connectionLimitHard : Int
  /-- `front::active_connection_count` in `on_accept` and `on_timer_reopen`. -/
  active : Int
  /-- `front::active_connection_count` in `accept_next`. -/
  activeNext : Int
deriving DecidableEq, Repr

namespace WsAcceptor

/-- `accept_next`. -/
def acceptNext (env : WsEnv) (a : Acceptor WsTimer) : Acceptor WsTimer :=
  let a := { a with acceptCalls := a.acceptCalls ++ [a.acceptor] }
  if env.activeNext ≥ env.connectionLimitHard then
    -- Closing a closed acceptor does nothing.
    if a.acceptor != .closed && !env.close then { a with acceptor := .closed }.throw
    else { a with acceptor := .closed }.wait (seconds 5) .onTimerReopen
  else a.asyncAccept

/-- `open`. -/
def openAcceptor (makeAddress : String → Bool) (env : WsEnv) (a : Acceptor WsTimer) :
    Acceptor WsTimer :=
  let endpoint := env.config.endpoint "0.0.0.0" 7011
  if !makeAddress endpoint.address then a.throw
  else
    a.openWith .openAcceptor (acceptNext env) (env.config.reuseAddr.getD false) endpoint env.calls

/-- The end of `on_accept`. -/
def acceptLater (env : WsEnv) (a : Acceptor WsTimer) : Acceptor WsTimer :=
  if env.active > env.connectionLimitHard.tdiv 2 then a.wait (milliseconds 20) .acceptNext
  else acceptNext env a

def onAccept (env : WsEnv) (ok : Bool) (a : Acceptor WsTimer) : Acceptor WsTimer :=
  if ok then
    if !env.remoteEndpoint.1 || !env.remoteEndpoint.2 || !env.noDelay then a.throw
    else acceptLater env { a with made := a.made + 1 }
  else acceptLater env a

def onTimerReopen (makeAddress : String → Bool) (env : WsEnv) (a : Acceptor WsTimer) :
    Acceptor WsTimer :=
  if env.active ≥ env.connectionLimitHard then a.wait (seconds 5) .onTimerReopen
  else openAcceptor makeAddress env a

def handlers (makeAddress : String → Bool) : Handlers WsTimer WsEnv where
  openAcceptor := openAcceptor makeAddress
  onTimer
    | .openAcceptor => openAcceptor makeAddress
    | .acceptNext => acceptNext
    | .onTimerReopen => onTimerReopen makeAddress
  onAccept := onAccept

/-! ## When a handler throws -/

/-- `accept_next` closes the acceptor, and that fails. -/
def acceptNextThrows (env : WsEnv) (acceptor : AcceptorState) : Bool :=
  decide (env.activeNext ≥ env.connectionLimitHard) && (acceptor != .closed && !env.close)

/-- `open` does not get its address, or listens, and then `accept_next`
throws. -/
def openThrows (makeAddress : String → Bool) (env : WsEnv) : Bool :=
  !makeAddress (env.config.endpoint "0.0.0.0" 7011).address ||
    (!env.config.reuseAddr.getD false && env.calls.openSocket && env.calls.bindTo &&
      env.calls.listenOn && decide (env.activeNext ≥ env.connectionLimitHard) && !env.close)

def onAcceptThrows (env : WsEnv) (ok : Bool) (acceptor : AcceptorState) : Bool :=
  (ok && !(env.remoteEndpoint.1 && env.remoteEndpoint.2 && env.noDelay)) ||
    (decide (env.active ≤ env.connectionLimitHard.tdiv 2) && acceptNextThrows env acceptor)

/-- The outcomes `open` gets in a step that calls it. -/
def callsOpen (a : Acceptor WsTimer) : Event WsEnv → Option WsEnv
  | .run env => some env
  | .timer i env =>
    match a.timer.take i with
    | none => none
    | some (w, _) =>
      match w.handler with
      | .openAcceptor => some env
      | .acceptNext => none
      | .onTimerReopen => if env.active ≥ env.connectionLimitHard then none else some env
  | _ => none

/-- `open` does not throw, and the calls do not make it go wrong. -/
def opensRight (makeAddress : String → Bool) (env : WsEnv) : Bool :=
  !openThrows makeAddress env && env.calls.right (env.config.reuseAddr.getD false)

/-- What `accept_next` leaves: an accept on the listening socket, or at the hard
limit a closed socket and the reopen timer. -/
def AcceptNextLeaves (env : WsEnv) (e : Endpoint) (a : Acceptor WsTimer) : Prop :=
  (env.activeNext < env.connectionLimitHard ∧ a.acceptor = .listening e ∧ a.accepting = 1) ∨
  (env.connectionLimitHard ≤ env.activeNext ∧ a.acceptor = .closed ∧
    a.timer.waits = [⟨.onTimerReopen, .waiting⟩])

/-- How a run of `open` should end. -/
def OpenEnds (env : WsEnv) (a a' : Acceptor WsTimer) : Prop :=
  EndsRight .openAcceptor (AcceptNextLeaves env)
    (env.calls.accepted (env.config.reuseAddr.getD false)) a a'

/-- A call without an `error_code` that the handler makes fails. -/
def throws (makeAddress : String → Bool) (a : Acceptor WsTimer) : Event WsEnv → Bool
  | .run env => openThrows makeAddress env
  | .timer i env =>
    match a.timer.take i with
    | none => false
    | some (w, _) =>
      match w.handler with
      | .openAcceptor => openThrows makeAddress env
      | .acceptNext => acceptNextThrows env a.acceptor
      | .onTimerReopen =>
        decide (env.active < env.connectionLimitHard) && openThrows makeAddress env
  | .accepted ok env => onAcceptThrows env ok a.acceptor
  | _ => false

/-- The acceptor as a chain. -/
def chain (makeAddress : String → Bool) : Chain (Acceptor WsTimer) (Event WsEnv) :=
  (handlers makeAddress).chain (throws makeAddress)

end WsAcceptor

namespace WsAcceptorLemmas

open AcceptorLemmas WsAcceptor

variable {makeAddress : String → Bool} {a a' : Acceptor WsTimer} {env : WsEnv}

/-- The timer waits to open a closed acceptor, or to go on accepting. -/
def needsClosed : WsTimer → Bool
  | .openAcceptor => true
  | .acceptNext => false
  | .onTimerReopen => true

theorem acceptNext_resumes (h : a.Running) : (acceptNext env a).Resumes needsClosed := by
  have hrunning : ∀ calls acceptor, { a with acceptCalls := calls, acceptor }.Running :=
    fun _ _ => ⟨h.accepting, h.waits, h.started, h.crashed⟩
  unfold acceptNext
  dsimp only
  split
  · split
    · exact throw_resumes (hrunning _ .closed)
    · exact wait_resumes (hrunning _ .closed) _ fun _ => rfl
  · exact asyncAccept_resumes (hrunning _ a.acceptor)

theorem openAcceptor_resumes (h : a.Running) (hclosed : a.acceptor = .closed) :
    (openAcceptor makeAddress env a).Resumes needsClosed := by
  unfold openAcceptor
  dsimp only
  split
  · exact throw_resumes h
  · exact openWith_resumes h hclosed (fun _ ha => acceptNext_resumes ha) _ _ _

theorem acceptLater_resumes (h : a.Running) : (acceptLater env a).Resumes needsClosed := by
  unfold acceptLater
  split
  · exact wait_resumes h _ nofun
  · exact acceptNext_resumes h

theorem onAccept_resumes (h : a.Running) (ok : Bool) :
    (onAccept env ok a).Resumes needsClosed := by
  unfold onAccept
  split
  · split
    · exact throw_resumes h
    · exact acceptLater_resumes ⟨h.accepting, h.waits, h.started, h.crashed⟩
  · exact acceptLater_resumes h

theorem onTimerReopen_resumes (h : a.Running) (hclosed : a.acceptor = .closed) :
    (onTimerReopen makeAddress env a).Resumes needsClosed := by
  unfold onTimerReopen
  split
  · exact wait_resumes h _ fun _ => hclosed
  · exact openAcceptor_resumes h hclosed

theorem handlers_lawful : (handlers makeAddress).Lawful needsClosed where
  openAcceptor _ _ h hclosed := openAcceptor_resumes h hclosed
  onTimer k _ _ h hclosed := by
    cases k with
    | openAcceptor => exact openAcceptor_resumes h (hclosed rfl)
    | acceptNext => exact acceptNext_resumes h
    | onTimerReopen => exact onTimerReopen_resumes h (hclosed rfl)
  onAccept _ ok _ h := onAccept_resumes h ok

/-! ## When a handler throws -/

theorem acceptNext_crashed (h : a.crashed = false) :
    (acceptNext env a).crashed = acceptNextThrows env a.acceptor := by
  unfold acceptNext acceptNextThrows
  dsimp only
  split
  · next hlimit =>
    rw [decide_eq_true hlimit, Bool.true_and]
    split
    · next hthrow => exact hthrow.symm
    · next hthrow => exact h.trans (Bool.eq_false_iff.mpr hthrow).symm
  · next hlimit =>
    rw [decide_eq_false hlimit, Bool.false_and]
    exact h

theorem openAcceptor_crashed (h : a.crashed = false) (hclosed : a.acceptor = .closed) :
    (openAcceptor makeAddress env a).crashed = openThrows makeAddress env := by
  unfold openAcceptor openThrows
  dsimp only
  cases haddress : makeAddress (env.config.endpoint "0.0.0.0" 7011).address with
  | false => rfl
  | true =>
    rw [if_neg (by simp), openWith_closed hclosed, Bool.not_true, Bool.false_or]
    cases env.config.reuseAddr.getD false with
    | true => exact h
    | false =>
      cases hopen : env.calls.openSocket with
      | false => exact h
      | true =>
        rw [if_pos (by simp)]
        cases hbind : env.calls.bindTo && env.calls.listenOn with
        | true =>
          obtain ⟨hb, hl⟩ := Bool.and_eq_true_iff.mp hbind
          rw [if_pos rfl, hb, hl]
          exact acceptNext_crashed (a := { a with acceptor := .listening _ }) h
        | false =>
          have hright : (!false && true && env.calls.bindTo && env.calls.listenOn &&
              decide (env.activeNext ≥ env.connectionLimitHard) && !env.close) = false := by
            rw [Bool.and_assoc (!false && true), hbind]
            rfl
          rw [if_neg (by simp), hright]
          split
          · rw [acceptNext_crashed (a := { a with acceptor := .closed }) h]
            exact Bool.and_false _
          · exact h

theorem acceptLater_crashed (h : a.crashed = false) : (acceptLater env a).crashed =
    (decide (env.active ≤ env.connectionLimitHard.tdiv 2) &&
      acceptNextThrows env a.acceptor) := by
  unfold acceptLater
  split
  · next hhalf =>
    rw [decide_eq_false (by omega), Bool.false_and]
    exact h
  · next hhalf => rw [decide_eq_true (by omega), Bool.true_and, acceptNext_crashed h]

theorem onAccept_crashed (h : a.crashed = false) (ok : Bool) :
    (onAccept env ok a).crashed = onAcceptThrows env ok a.acceptor := by
  unfold onAccept onAcceptThrows
  cases ok with
  | false => exact acceptLater_crashed h
  | true =>
    rw [if_pos rfl, Bool.true_and, Bool.not_and, Bool.not_and]
    split
    · next hthrow =>
      rw [hthrow]
      rfl
    · next hthrow =>
      rw [Bool.eq_false_iff.mpr hthrow, Bool.false_or]
      exact acceptLater_crashed (a := { a with made := a.made + 1 }) h

theorem onTimerReopen_crashed (h : a.crashed = false) (hclosed : a.acceptor = .closed) :
    (onTimerReopen makeAddress env a).crashed =
      (decide (env.active < env.connectionLimitHard) && openThrows makeAddress env) := by
  unfold onTimerReopen
  split
  · next hlimit =>
    rw [decide_eq_false (by omega), Bool.false_and]
    exact h
  · next hlimit => rw [decide_eq_true (by omega), Bool.true_and, openAcceptor_crashed h hclosed]

theorem step_crashed {e : Event WsEnv} (ha : a.Chained needsClosed)
    (hstep : (handlers makeAddress).step a e = some a') :
    a'.crashed = throws makeAddress a e := by
  have hc := Handlers.step_not_crashed hstep
  cases step_cases ha hstep with
  | run env hrunning hclosed =>
    exact openAcceptor_crashed (a := { a with started := true }) hc hclosed
  | timer i env w timer htake hrunning hclosed =>
    unfold throws
    dsimp only
    rw [htake]
    obtain ⟨handler, state⟩ := w
    cases handler with
    | openAcceptor => exact openAcceptor_crashed (a := { a with timer }) hc (hclosed rfl)
    | acceptNext => exact acceptNext_crashed (a := { a with timer }) hc
    | onTimerReopen => exact onTimerReopen_crashed (a := { a with timer }) hc (hclosed rfl)
  | accepted ok env hpos hrunning =>
    exact onAccept_crashed (a := { a with accepting := a.accepting - 1 }) hc ok
  | tick duration => exact hc
  | expire timer hexpire => exact hc

/-! ## How `open` ends -/

theorem acceptNext_calls (env : WsEnv) (b : Acceptor WsTimer) :
    (acceptNext env b).acceptCalls = b.acceptCalls ++ [b.acceptor] := by
  unfold acceptNext
  dsimp only
  split
  · split <;> rfl
  · rfl

/-- `accept_next` on a listening socket. -/
theorem acceptNext_leaves (h : a.Running) (e : Endpoint) :
    (acceptNext env { a with acceptor := .listening e }).crashed =
      (decide (env.activeNext ≥ env.connectionLimitHard) && !env.close) ∧
    ((decide (env.activeNext ≥ env.connectionLimitHard) && !env.close) = false →
      AcceptNextLeaves env e (acceptNext env { a with acceptor := .listening e })) := by
  refine ⟨acceptNext_crashed (a := { a with acceptor := .listening e }) h.crashed, fun hclose => ?_⟩
  unfold acceptNext AcceptNextLeaves
  dsimp only
  by_cases hlimit : env.activeNext ≥ env.connectionLimitHard
  · rw [decide_eq_true hlimit, Bool.true_and] at hclose
    rw [if_pos hlimit, if_neg (by simp [hclose])]
    refine Or.inr ⟨hlimit, rfl, ?_⟩
    show a.timer.waits.map _ ++ [_] = _
    rw [h.waits]
    rfl
  · rw [if_neg hlimit]
    exact Or.inl ⟨Int.not_le.mp hlimit, rfl, congrArg (· + 1) h.accepting⟩

theorem openAcceptor_ends (h : a.Running) (hclosed : a.acceptor = .closed) :
    OpenEnds env a (openAcceptor makeAddress env a) ↔ opensRight makeAddress env = true := by
  unfold openAcceptor opensRight openThrows
  dsimp only
  cases haddress : makeAddress (env.config.endpoint "0.0.0.0" 7011).address with
  | false =>
    rw [if_pos (by simp)]
    constructor
    · intro hends
      rcases hends.1 with ⟨_, _, hc, _⟩ | ⟨_, hc, _⟩ <;> cases hc
    · intro hright
      cases hright
  | true =>
    rw [if_neg (by simp), Bool.not_true, Bool.false_or, Bool.and_eq_true, Bool.not_eq_true']
    have hends : OpenEnds env a (openWith .openAcceptor (acceptNext env) _ _ env.calls a) ↔ _ :=
      openWith_endsRight h hclosed (acceptNext_calls env) (acceptNext_leaves h)
        (env.config.reuseAddr.getD false) (env.config.endpoint "0.0.0.0" 7011) env.calls
    rw [← Bool.and_assoc] at hends
    exact hends.trans and_comm

theorem step_ends {e : Event WsEnv} (ha : a.Chained needsClosed)
    (hcalls : callsOpen a e = some env) (hstep : (handlers makeAddress).step a e = some a') :
    OpenEnds env a a' ↔ opensRight makeAddress env = true := by
  cases step_cases ha hstep with
  | run env' hrunning hclosed =>
    cases hcalls
    exact openAcceptor_ends hrunning hclosed
  | timer i env' w timer htake hrunning hclosed =>
    unfold callsOpen at hcalls
    dsimp only at hcalls
    rw [htake] at hcalls
    obtain ⟨handler, state⟩ := w
    cases handler with
    | openAcceptor =>
      cases hcalls
      exact openAcceptor_ends hrunning (hclosed rfl)
    | acceptNext => cases hcalls
    | onTimerReopen =>
      dsimp only at hcalls
      split at hcalls
      · cases hcalls
      · next hlimit =>
        cases hcalls
        have hopen : (handlers makeAddress).onTimer .onTimerReopen env { a with timer } =
            openAcceptor makeAddress env { a with timer } := if_neg hlimit
        rw [hopen]
        exact openAcceptor_ends hrunning (hclosed rfl)
  | accepted ok env' hpos hrunning => cases hcalls
  | tick duration => cases hcalls
  | expire timer hexpire => cases hcalls

theorem run_not_ends (makeAddress : String → Bool) (env : WsEnv) (now : Int)
    (hright : opensRight makeAddress env = false) :
    ¬OpenEnds env (init now) (openAcceptor makeAddress env { init now with started := true }) := by
  intro hends
  have hrunning : ({ init now with started := true } : Acceptor WsTimer).Running :=
    ⟨rfl, rfl, rfl, rfl⟩
  exact Bool.eq_false_iff.mp hright ((openAcceptor_ends hrunning rfl).mp hends)

/-! ## Listening -/

theorem openAcceptor_listening (h : a.Running) (hclosed : a.acceptor = .closed)
    (hright : opensRight makeAddress env = true) :
    (openAcceptor makeAddress env a).Listening needsClosed := by
  have hends := (openAcceptor_ends h hclosed).mpr hright
  refine endsRight_listening hends (openAcceptor_resumes h hclosed) rfl ?_
  intro e hleaves hone
  rcases hleaves with ⟨_, hlistening, _⟩ | ⟨_, _, hwaits⟩
  · exact ⟨fun _ => by rw [hlistening]; rfl, fun _ _ _ => by rw [hlistening]; rfl⟩
  · unfold continuations at hone
    rw [hwaits, List.length_singleton] at hone
    exact wait_listening (by omega) rfl hwaits

theorem acceptNext_listening (h : a.Running) (hlistening : a.acceptor.isListening = true) :
    (acceptNext env a).Listening needsClosed := by
  unfold acceptNext
  dsimp only
  split
  · split
    · exact throw_listening (a := { a with
        acceptCalls := a.acceptCalls ++ [a.acceptor]
        acceptor := .closed }) ⟨h.accepting, h.waits, h.started, h.crashed⟩
    · exact running_wait_listening (a := { a with
        acceptCalls := a.acceptCalls ++ [a.acceptor]
        acceptor := .closed }) ⟨h.accepting, h.waits, h.started, h.crashed⟩ _ rfl
  · exact ⟨fun _ => hlistening, fun _ _ _ => hlistening⟩

theorem acceptLater_listening (h : a.Running) (hlistening : a.acceptor.isListening = true) :
    (acceptLater env a).Listening needsClosed := by
  unfold acceptLater
  split
  · exact ⟨fun _ => hlistening, fun _ _ _ => hlistening⟩
  · exact acceptNext_listening h hlistening

theorem onAccept_listening (h : a.Running) (hlistening : a.acceptor.isListening = true)
    (ok : Bool) : (onAccept env ok a).Listening needsClosed := by
  unfold onAccept
  split
  · split
    · exact throw_listening h
    · exact acceptLater_listening (a := { a with made := a.made + 1 })
        ⟨h.accepting, h.waits, h.started, h.crashed⟩ hlistening
  · exact acceptLater_listening h hlistening

theorem step_listening {e : Event WsEnv} (ha : a.Chained needsClosed)
    (hl : a.Listening needsClosed)
    (hright : ∀ env, callsOpen a e = some env → opensRight makeAddress env = true)
    (hstep : (handlers makeAddress).step a e = some a') : a'.Listening needsClosed := by
  cases step_cases ha hstep with
  | run env hrunning hclosed => exact openAcceptor_listening hrunning hclosed (hright env rfl)
  | timer i env w timer htake hrunning hclosed =>
    obtain ⟨hmem, _⟩ := Timer.take_spec htake
    have hcalls : callsOpen a (.timer i env) = match w.handler with
        | .openAcceptor => some env
        | .acceptNext => none
        | .onTimerReopen => if env.active ≥ env.connectionLimitHard then none else some env := by
      unfold callsOpen
      dsimp only
      rw [htake]
    obtain ⟨handler, state⟩ := w
    cases handler with
    | openAcceptor => exact openAcceptor_listening hrunning (hclosed rfl) (hright env hcalls)
    | acceptNext => exact acceptNext_listening hrunning (hl.waits _ hmem rfl)
    | onTimerReopen =>
      show (onTimerReopen makeAddress env _).Listening needsClosed
      unfold onTimerReopen
      split
      · exact running_wait_listening hrunning _ rfl
      · next hlimit =>
        exact openAcceptor_listening hrunning (hclosed rfl)
          (hright env (hcalls.trans (if_neg hlimit)))
  | accepted ok env hpos hrunning => exact onAccept_listening hrunning (hl.accepting hpos) ok
  | tick duration => exact ⟨hl.accepting, hl.waits⟩
  | expire timer hexpire => exact expire_listening hl hexpire

end WsAcceptorLemmas

/-! ## Opening -/

open Ian.Cluster

/-- In every run of both acceptors, over any number of retries and reopenings,
`open` ends listening or retrying exactly when its outcomes are right, and as
long as they are, an accept is outstanding only on a listening socket. -/
theorem opens_right_iff (makeAddress : String → Bool) (now : Int) :
    (WsAcceptor.handlers makeAddress).OpensRight WsAcceptor.callsOpen
      (WsAcceptor.opensRight makeAddress) WsAcceptor.OpenEnds now ∧
    (ClusterAcceptor.handlers makeAddress).OpensRight ClusterAcceptor.callsOpen
      (ClusterAcceptor.opensRight makeAddress) ClusterAcceptor.OpenEnds now := by
  constructor
  · refine WsAcceptorLemmas.handlers_lawful.opensRight ?_ ?_ now
    · intro a e env a' ha hcalls hstep
      exact WsAcceptorLemmas.step_ends ha hcalls hstep
    · intro a e a' ha hlistening hright hstep
      exact WsAcceptorLemmas.step_listening ha hlistening hright hstep
  · refine ClusterAcceptorLemmas.handlers_lawful.opensRight ?_ ?_ now
    · intro a e env a' ha hcalls hstep
      exact ClusterAcceptorLemmas.step_ends ha hcalls hstep
    · intro a e a' ha hlistening hright hstep
      exact ClusterAcceptorLemmas.step_listening ha hlistening hright hstep

/-- Every call succeeds. -/
def allCalls : OpenCalls := ⟨true, true, true, true, true⟩

/-- What a handler gets that is far from the connection limit and whose calls
all succeed, those of `open` apart. -/
def quietEnv (reuseAddr : Bool) (calls : OpenCalls) : WsEnv :=
  { config := ⟨some "0.0.0.0", some 7011, some reuseAddr, none⟩, calls, close := true,
    remoteEndpoint := (true, true), noDelay := true, connectionLimitHard := 100, active := 0,
    activeNext := 0 }

/-- `quietEnv` for the cluster acceptor. -/
def quietClusterEnv (reuseAddr : Bool) (calls : OpenCalls) : ClusterEnv :=
  { config := ⟨some "0.0.0.0", some 17001, some reuseAddr, some true⟩, calls,
    remoteEndpoint := (true, true) }

/-- The numeric addresses of the fixed inputs. -/
def numericAddress (s : String) : Bool := s = "0.0.0.0" || s = "127.0.0.1"

/-- `socket` is refused at first; the acceptor tries again after 10 s, listens and
accepts. -/
def retryRun : List (Event WsEnv) :=
  [.run (quietEnv false { allCalls with openSocket := false }), .tick 10000000000, .expire,
    .timer 0 (quietEnv false allCalls)]

theorem opens_right_retry :
    AllSteps (WsAcceptor.handlers numericAddress).step (fun a e =>
      (WsAcceptor.callsOpen a e).all (WsAcceptor.opensRight numericAddress) = true)
      (init 0) retryRun ∧
    ∃ a, runEvents (WsAcceptor.handlers numericAddress).step (init 0) retryRun = some a ∧
      a.acceptCalls = [.listening ⟨"0.0.0.0", 7011⟩] ∧ 0 < a.accepting ∧
      a.acceptor.isListening = true := by
  have hright : AllSteps (WsAcceptor.handlers numericAddress).step (fun a e =>
      (WsAcceptor.callsOpen a e).all (WsAcceptor.opensRight numericAddress) = true)
      (init 0) retryRun := by
    decide +kernel
  have hsome : (runEvents (WsAcceptor.handlers numericAddress).step (init 0) retryRun).isSome := by
    decide +kernel
  obtain ⟨a, ha⟩ := Option.isSome_iff_exists.mp hsome
  have hcalls : (runEvents (WsAcceptor.handlers numericAddress).step (init 0) retryRun).all
      (fun a => a.acceptCalls = [.listening ⟨"0.0.0.0", 7011⟩] ∧ 0 < a.accepting) := by
    decide +kernel
  rw [ha, Option.all_some, decide_eq_true_eq] at hcalls
  refine ⟨hright, a, ha, hcalls.1, hcalls.2, ?_⟩
  exact ((opens_right_iff numericAddress 0).1 retryRun).2 hright a ha hcalls.2

/-- With `reuse_addr`, `open` fails although the operating system would accept
everything. Without it, when the port is busy, the clean-up succeeds and the
acceptor accepts on a closed socket. -/
theorem open_goes_wrong :
    (∃ a, (WsAcceptor.handlers numericAddress).step (init 0)
        (.run (quietEnv true allCalls)) = some a ∧
      a.acceptor = .closed ∧ a.accepting = 0 ∧
      ¬WsAcceptor.OpenEnds (quietEnv true allCalls) (init 0) a) ∧
    (∃ a, (WsAcceptor.handlers numericAddress).step (init 0)
        (.run (quietEnv false { allCalls with bindTo := false })) = some a ∧
      a.acceptor = .closed ∧ a.accepting = 1 ∧
      ¬WsAcceptor.OpenEnds (quietEnv false { allCalls with bindTo := false }) (init 0) a) ∧
    (∃ a, (ClusterAcceptor.handlers numericAddress).step (init 0)
        (.run (quietClusterEnv true allCalls)) = some a ∧
      a.acceptor = .closed ∧ a.accepting = 0 ∧
      ¬ClusterAcceptor.OpenEnds (quietClusterEnv true allCalls)
        (init 0) a) ∧
    (∃ a, (ClusterAcceptor.handlers numericAddress).step (init 0)
        (.run (quietClusterEnv false { allCalls with bindTo := false })) = some a ∧
      a.acceptor = .closed ∧ a.accepting = 1 ∧
      ¬ClusterAcceptor.OpenEnds (quietClusterEnv false { allCalls with bindTo := false })
        (init 0) a) := by
  refine ⟨⟨_, rfl, rfl, rfl, ?_⟩, ⟨_, rfl, rfl, rfl, ?_⟩, ⟨_, rfl, rfl, rfl, ?_⟩,
    ⟨_, rfl, rfl, rfl, ?_⟩⟩
  · exact WsAcceptorLemmas.run_not_ends numericAddress _ 0 (by decide)
  · exact WsAcceptorLemmas.run_not_ends numericAddress _ 0 (by decide)
  · exact ClusterAcceptorLemmas.run_not_ends numericAddress _ 0 (by decide)
  · exact ClusterAcceptorLemmas.run_not_ends numericAddress _ 0 (by decide)

/-! ## The chains -/

/-- In every run of an acceptor or of the watcher, a handler returns and leaves
exactly one continuation if and only if no call of it throws, and as long as
none does, the chain goes on. -/
theorem chains_go_on_iff (makeAddress : String → Bool) (now : Int) :
    (WsAcceptor.chain makeAddress).GoesOn (init now) ∧
    (ClusterAcceptor.chain makeAddress).GoesOn (init now) ∧
    ClusterWatcher.chain.GoesOn (ClusterWatcher.init now) := by
  refine ⟨?_, ?_, ClusterWatcherLemmas.goesOn now⟩
  · exact WsAcceptorLemmas.handlers_lawful.goesOn
      (fun a e a' ha hstep => WsAcceptorLemmas.step_crashed ha hstep) now
  · exact ClusterAcceptorLemmas.handlers_lawful.goesOn
      (fun a e a' ha hstep => ClusterAcceptorLemmas.step_crashed ha hstep) now

/-- The websocket acceptor makes a connection. -/
def acceptRun : List (Event WsEnv) :=
  [.run (quietEnv false allCalls), .accepted true (quietEnv false allCalls)]

theorem chains_go_on_accept :
    AllSteps (WsAcceptor.chain numericAddress).step
      (fun a e => (WsAcceptor.chain numericAddress).throws a e = false) (init 0) acceptRun ∧
    ∃ a, runEvents (WsAcceptor.chain numericAddress).step (init 0) acceptRun = some a ∧
      a.made = 1 ∧ a.crashed = false ∧ a.continuations = 1 := by
  have hthrows : AllSteps (WsAcceptor.chain numericAddress).step
      (fun a e => (WsAcceptor.chain numericAddress).throws a e = false) (init 0) acceptRun := by
    decide +kernel
  have hrun := ((chains_go_on_iff numericAddress 0).1 acceptRun).2 hthrows _ rfl
  exact ⟨hthrows, _, rfl, rfl, hrun.1, hrun.2 rfl⟩

/-- The peer resets the connection before the handler asks for its address. -/
theorem chain_dies :
    (∃ a, runEvents (WsAcceptor.chain numericAddress).step (init 0)
        [.run (quietEnv false allCalls),
          .accepted true { quietEnv false allCalls with remoteEndpoint := (false, false) }] =
        some a ∧ ¬(WsAcceptor.chain numericAddress).Returns a ∧ a.continuations = 0) ∧
    (∃ a, runEvents (ClusterAcceptor.chain numericAddress).step (init 0)
        [.run (quietClusterEnv false allCalls),
          .accepted true { quietClusterEnv false allCalls with remoteEndpoint := (false, false) }] =
        some a ∧ ¬(ClusterAcceptor.chain numericAddress).Returns a ∧ a.continuations = 0) ∧
    (∃ w, runEvents ClusterWatcher.chain.step (ClusterWatcher.init 0)
        [.run, .connected true (false, false)] = some w ∧
      ¬ClusterWatcher.chain.Returns w ∧ w.continuations = 0) := by
  refine ⟨⟨_, rfl, ?_, rfl⟩, ⟨_, rfl, ?_, rfl⟩, ⟨_, rfl, ?_, rfl⟩⟩
  · intro h
    cases h.1
  · intro h
    cases h.1
  · intro h
    cases h.1

end Ian.Front
