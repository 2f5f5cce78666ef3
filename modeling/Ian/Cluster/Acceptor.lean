import Ian.Common.Acceptor
import Ian.Lib.Chain

/-!
# The cluster acceptor and the cluster watcher

`server/common/src/cluster/ClusterAcceptor.cpp` and `ClusterWatcher.cpp`. The
acceptor makes a connection of every peer that connects to it; the watcher
connects to one peer, again and again.

`makeAddress` stands for `ip::make_address`: whether it takes the text, or
throws.
-/

namespace Ian.Cluster

open Ian.Lib Ian.Common

/-! ## The acceptor -/

/-- What the timer of a cluster acceptor waits for. -/
inductive ClusterTimer where
  | openAcceptor
deriving DecidableEq, Repr

/-- The outcomes of the calls a handler of `ClusterAcceptor` makes. -/
structure ClusterEnv where
  config : ListenConfig
  calls : OpenCalls
  /-- The two calls of `remote_endpoint()`. -/
  remoteEndpoint : Bool × Bool
deriving DecidableEq, Repr

namespace ClusterAcceptor

open Acceptor

/-- `accept_next`. -/
def acceptNext (a : Acceptor ClusterTimer) : Acceptor ClusterTimer :=
  { a with acceptCalls := a.acceptCalls ++ [a.acceptor] }.asyncAccept

/-- `open`. -/
def openAcceptor (makeAddress : String → Bool) (env : ClusterEnv) (a : Acceptor ClusterTimer) :
    Acceptor ClusterTimer :=
  let endpoint := env.config.endpoint "127.0.0.1" 17001
  let a := { a with safeLink := env.config.safeLink.getD false }
  if !makeAddress endpoint.address then a.throw
  else
    a.openWith .openAcceptor acceptNext (env.config.reuseAddr.getD false) endpoint env.calls

def onAccept (env : ClusterEnv) (ok : Bool) (a : Acceptor ClusterTimer) : Acceptor ClusterTimer :=
  if ok then
    if !env.remoteEndpoint.1 || !env.remoteEndpoint.2 then a.throw
    else acceptNext { a with made := a.made + 1 }
  else acceptNext a

def handlers (makeAddress : String → Bool) : Handlers ClusterTimer ClusterEnv where
  openAcceptor := openAcceptor makeAddress
  onTimer _ := openAcceptor makeAddress
  onAccept := onAccept

/-- The outcomes `open` gets in a step that calls it. -/
def callsOpen (a : Acceptor ClusterTimer) : Event ClusterEnv → Option ClusterEnv
  | .run env => some env
  | .timer i env => if (a.timer.take i).isSome then some env else none
  | _ => none

/-- The address is one, and the calls do not make `open` go wrong. -/
def opensRight (makeAddress : String → Bool) (env : ClusterEnv) : Bool :=
  makeAddress (env.config.endpoint "127.0.0.1" 17001).address &&
    env.calls.right (env.config.reuseAddr.getD false)

/-- What `accept_next` leaves: an accept on the listening socket. -/
def AcceptNextLeaves (e : Endpoint) (a : Acceptor ClusterTimer) : Prop :=
  a.acceptor = .listening e ∧ a.accepting = 1

/-- How a run of `open` should end. -/
def OpenEnds (env : ClusterEnv) (a a' : Acceptor ClusterTimer) : Prop :=
  EndsRight .openAcceptor AcceptNextLeaves
    (env.calls.accepted (env.config.reuseAddr.getD false)) a a'

/-- A call without an `error_code` that the handler makes fails. -/
def throws (makeAddress : String → Bool) (a : Acceptor ClusterTimer) : Event ClusterEnv → Bool
  | .run env => !makeAddress (env.config.endpoint "127.0.0.1" 17001).address
  | .timer i env =>
    (a.timer.take i).isSome && !makeAddress (env.config.endpoint "127.0.0.1" 17001).address
  | .accepted ok env => ok && !(env.remoteEndpoint.1 && env.remoteEndpoint.2)
  | _ => false

/-- The acceptor as a chain. -/
def chain (makeAddress : String → Bool) : Chain (Acceptor ClusterTimer) (Event ClusterEnv) :=
  (handlers makeAddress).chain (throws makeAddress)

end ClusterAcceptor

namespace ClusterAcceptorLemmas

open Acceptor Acceptor.AcceptorLemmas ClusterAcceptor

variable {makeAddress : String → Bool} {a a' : Acceptor ClusterTimer} {env : ClusterEnv}

/-- The timer only waits to open a closed acceptor. -/
def needsClosed (_ : ClusterTimer) : Bool := true

theorem acceptNext_resumes (h : a.Running) : (acceptNext a).Resumes needsClosed :=
  asyncAccept_resumes ⟨h.accepting, h.waits, h.started, h.crashed⟩

theorem openAcceptor_resumes (h : a.Running) (hclosed : a.acceptor = .closed) :
    (openAcceptor makeAddress env a).Resumes needsClosed := by
  have hrunning : ∀ safeLink, { a with safeLink }.Running :=
    fun _ => ⟨h.accepting, h.waits, h.started, h.crashed⟩
  unfold openAcceptor
  dsimp only
  split
  · exact throw_resumes (hrunning _)
  · exact openWith_resumes (hrunning (env.config.safeLink.getD false)) hclosed
      (fun _ ha => acceptNext_resumes ha) _ _ _

theorem onAccept_resumes (h : a.Running) (ok : Bool) :
    (onAccept env ok a).Resumes needsClosed := by
  unfold onAccept
  split
  · split
    · exact throw_resumes h
    · exact acceptNext_resumes ⟨h.accepting, h.waits, h.started, h.crashed⟩
  · exact acceptNext_resumes h

theorem handlers_lawful : (handlers makeAddress).Lawful needsClosed where
  openAcceptor _ _ h hclosed := openAcceptor_resumes h hclosed
  onTimer _ _ _ h hclosed := openAcceptor_resumes h (hclosed rfl)
  onAccept _ ok _ h := onAccept_resumes h ok

/-! ## When a handler throws -/

theorem openAcceptor_crashed (h : a.crashed = false) (hclosed : a.acceptor = .closed) :
    (openAcceptor makeAddress env a).crashed =
      !makeAddress (env.config.endpoint "127.0.0.1" 17001).address := by
  unfold openAcceptor
  dsimp only
  split
  · next haddress => exact haddress.symm
  · next haddress =>
    have hopen := openWith_closed (a := { a with safeLink := env.config.safeLink.getD false })
      hclosed .openAcceptor acceptNext (env.config.reuseAddr.getD false)
      (env.config.endpoint "127.0.0.1" 17001) env.calls
    rw [hopen, Bool.eq_false_iff.mpr haddress]
    split
    · split
      · exact h
      split <;> exact h
    · exact h

theorem onAccept_crashed (h : a.crashed = false) (ok : Bool) :
    (onAccept env ok a).crashed = (ok && !(env.remoteEndpoint.1 && env.remoteEndpoint.2)) := by
  unfold onAccept
  cases ok with
  | false => exact h
  | true =>
    rw [if_pos rfl, Bool.true_and, Bool.not_and]
    split
    · next hthrow => exact hthrow.symm
    · next hthrow => exact h.trans (Bool.eq_false_iff.mpr hthrow).symm

theorem step_crashed {e : Event ClusterEnv} (ha : a.Chained needsClosed)
    (hstep : (handlers makeAddress).step a e = some a') :
    a'.crashed = throws makeAddress a e := by
  have hc := Handlers.step_not_crashed hstep
  cases step_cases ha hstep with
  | run env hrunning hclosed =>
    exact openAcceptor_crashed (a := { a with started := true }) hc hclosed
  | timer i env w timer htake hrunning hclosed =>
    unfold throws
    dsimp only
    rw [htake]
    exact openAcceptor_crashed (a := { a with timer }) hc (hclosed rfl)
  | accepted ok env hpos hrunning =>
    exact onAccept_crashed (a := { a with accepting := a.accepting - 1 }) hc ok
  | tick duration => exact hc
  | expire timer hexpire => exact hc

/-! ## How `open` ends -/

theorem openAcceptor_ends (h : a.Running) (hclosed : a.acceptor = .closed) :
    OpenEnds env a (openAcceptor makeAddress env a) ↔ opensRight makeAddress env = true := by
  have hrunning : ∀ safeLink, { a with safeLink }.Running :=
    fun _ => ⟨h.accepting, h.waits, h.started, h.crashed⟩
  unfold openAcceptor opensRight
  dsimp only
  cases haddress : makeAddress (env.config.endpoint "127.0.0.1" 17001).address with
  | false =>
    rw [if_pos (by simp)]
    constructor
    · intro hends
      rcases hends.1 with ⟨_, _, hc, _⟩ | ⟨_, hc, _⟩ <;> cases hc
    · intro hright
      cases hright
  | true =>
    rw [if_neg (by simp), Bool.true_and]
    have hcalls : ∀ b, (acceptNext b).acceptCalls = b.acceptCalls ++ [b.acceptor] := fun _ => rfl
    have hleaves : ∀ e, (acceptNext { a with
          safeLink := env.config.safeLink.getD false
          acceptor := .listening e }).crashed = false ∧
        (false = false → AcceptNextLeaves e (acceptNext { a with
          safeLink := env.config.safeLink.getD false
          acceptor := .listening e })) :=
      fun e => ⟨h.crashed, fun _ => ⟨rfl, congrArg (· + 1) h.accepting⟩⟩
    have hends : OpenEnds env a (openWith .openAcceptor acceptNext _ _ env.calls _) ↔ _ :=
      openWith_endsRight (hrunning (env.config.safeLink.getD false)) hclosed hcalls hleaves
        (env.config.reuseAddr.getD false) (env.config.endpoint "127.0.0.1" 17001) env.calls
    rw [Bool.and_false] at hends
    exact hends.trans (and_iff_left rfl)

theorem step_ends {e : Event ClusterEnv} (ha : a.Chained needsClosed)
    (hcalls : callsOpen a e = some env) (hstep : (handlers makeAddress).step a e = some a') :
    OpenEnds env a a' ↔ opensRight makeAddress env = true := by
  cases step_cases ha hstep with
  | run env' hrunning hclosed =>
    cases hcalls
    exact openAcceptor_ends hrunning hclosed
  | timer i env' w timer htake hrunning hclosed =>
    unfold callsOpen at hcalls
    dsimp only at hcalls
    rw [htake] at hcalls
    cases hcalls
    exact openAcceptor_ends hrunning (hclosed rfl)
  | accepted ok env' hpos hrunning => cases hcalls
  | tick duration => cases hcalls
  | expire timer hexpire => cases hcalls

theorem run_not_ends (makeAddress : String → Bool) (env : ClusterEnv) (now : Int)
    (hright : opensRight makeAddress env = false) :
    ¬OpenEnds env (init now) (openAcceptor makeAddress env { init now with started := true }) := by
  intro hends
  have hrunning : ({ init now with started := true } : Acceptor ClusterTimer).Running :=
    ⟨rfl, rfl, rfl, rfl⟩
  exact Bool.eq_false_iff.mp hright ((openAcceptor_ends hrunning rfl).mp hends)

theorem openAcceptor_listening (h : a.Running) (hclosed : a.acceptor = .closed)
    (hright : opensRight makeAddress env = true) :
    (openAcceptor makeAddress env a).Listening needsClosed := by
  have hends := (openAcceptor_ends h hclosed).mpr hright
  refine endsRight_listening hends (openAcceptor_resumes h hclosed) rfl ?_
  intro e hleaves _
  refine ⟨fun _ => ?_, nofun⟩
  rw [hleaves.1]
  rfl

theorem onAccept_listening (h : a.Running) (hlistening : a.acceptor.isListening = true)
    (ok : Bool) : (onAccept env ok a).Listening needsClosed := by
  unfold onAccept
  split
  · split
    · exact throw_listening h
    · exact ⟨fun _ => hlistening, nofun⟩
  · exact ⟨fun _ => hlistening, nofun⟩

theorem step_listening {e : Event ClusterEnv} (ha : a.Chained needsClosed)
    (hl : a.Listening needsClosed)
    (hright : ∀ env, callsOpen a e = some env → opensRight makeAddress env = true)
    (hstep : (handlers makeAddress).step a e = some a') : a'.Listening needsClosed := by
  cases step_cases ha hstep with
  | run env hrunning hclosed => exact openAcceptor_listening hrunning hclosed (hright env rfl)
  | timer i env w timer htake hrunning hclosed =>
    refine openAcceptor_listening hrunning (hclosed rfl) (hright env ?_)
    unfold callsOpen
    dsimp only
    rw [htake]
    rfl
  | accepted ok env hpos hrunning =>
    exact onAccept_listening hrunning (hl.accepting hpos) ok
  | tick duration => exact ⟨hl.accepting, hl.waits⟩
  | expire timer hexpire => exact expire_listening hl hexpire

end ClusterAcceptorLemmas

/-! ## The watcher -/

/-- A `ClusterWatcher`. A connection it makes is a number, and `connection` is
the weak pointer to the last one. -/
structure ClusterWatcher where
  timer : Timer Unit
  connection : Option Nat
  -- Logs.
  /-- Outstanding `async_connect`s. -/
  connecting : Nat
  /-- The connections that have not been destroyed. -/
  live : List Nat
  /-- The number of connections made. -/
  made : Nat
  now : Int
  started : Bool
  crashed : Bool
deriving DecidableEq, Repr

namespace ClusterWatcher

def init (now : Int) : ClusterWatcher :=
  { timer := .init, connection := none, connecting := 0, live := [], made := 0, now,
    started := false, crashed := false }

def throw (w : ClusterWatcher) : ClusterWatcher := { w with crashed := true }

def tryConnect (w : ClusterWatcher) : ClusterWatcher := { w with connecting := w.connecting + 1 }

def wait (w : ClusterWatcher) (delay : Int) : ClusterWatcher :=
  { w with timer := (w.timer.expiresFromNow w.now delay).asyncWait () }

/-- `connection_.expired()`. -/
def expired (w : ClusterWatcher) : Bool :=
  match w.connection with
  | none => true
  | some i => !w.live.contains i

/-- `on_connect`; the argument are the two calls of `remote_endpoint()`. -/
def onConnect (remoteEndpoint : Bool × Bool) (ok : Bool) (w : ClusterWatcher) : ClusterWatcher :=
  if ok then
    if !remoteEndpoint.1 || !remoteEndpoint.2 then w.throw
    else
      { w with
        connection := some w.made
        live := w.live ++ [w.made]
        made := w.made + 1 }.wait (seconds 30)
  else w.wait (seconds 30)

def onTimer (state : WaitState) (w : ClusterWatcher) : ClusterWatcher :=
  if state = .aborted then w
  else if w.expired then w.tryConnect
  else w.wait (seconds 30)

inductive Event where
  | run
  | connected (ok : Bool) (remoteEndpoint : Bool × Bool)
  | timer (i : Nat)
  | destroy (i : Nat)
  | tick (duration : Nat)
  | expire
deriving DecidableEq, Repr

/-- The event runs a handler. -/
def Event.isHandler : Event → Bool
  | .run => true
  | .connected _ _ => true
  | .timer _ => true
  | _ => false

def step (w : ClusterWatcher) (e : Event) : Option ClusterWatcher :=
  if w.crashed then none
  else
    match e with
    | .run => if w.started then none else some ({ w with started := true }.tryConnect)
    | .connected ok remoteEndpoint =>
      if 0 < w.connecting then
        some ({ w with connecting := w.connecting - 1 }.onConnect remoteEndpoint ok)
      else none
    | .timer i =>
      (w.timer.take i).map fun (wt, timer) => { w with timer }.onTimer wt.state
    | .destroy i => some { w with live := w.live.erase i }
    | .tick duration => some { w with now := w.now + duration }
    | .expire => (w.timer.expire w.now).map fun timer => { w with timer }

/-- A call without an `error_code` that the handler makes fails. -/
def throws : Event → Bool
  | .connected ok remoteEndpoint => ok && !(remoteEndpoint.1 && remoteEndpoint.2)
  | _ => false

/-- The number of things that will run the watcher next. -/
def continuations (w : ClusterWatcher) : Nat := w.connecting + w.timer.waits.length

/-- Between two handlers there is exactly one continuation, before `run` there
is none, and no wait is aborted. -/
structure Chained (w : ClusterWatcher) : Prop where
  fresh : w.started = false → w.continuations = 0
  one : w.started = true → w.crashed = false → w.continuations = 1
  kept : ∀ wt ∈ w.timer.waits, wt.state ≠ .aborted

theorem init_chained (now : Int) : (init now).Chained := ⟨fun _ => rfl, nofun, nofun⟩

/-- The watcher as a chain. -/
def chain : Chain ClusterWatcher Event where
  step := step
  isHandler := Event.isHandler
  throws _ e := throws e
  started := started
  crashed := crashed
  continuations := continuations

end ClusterWatcher

namespace ClusterWatcherLemmas

open ClusterWatcher

variable {w w' : ClusterWatcher}

theorem wait_chained (hwaits : w.timer.waits = []) (hconnecting : w.connecting = 0)
    (hstarted : w.started = true) (delay : Int) : (w.wait delay).Chained := by
  have hwait : (w.wait delay).timer.waits = [⟨(), .waiting⟩] := by
    show w.timer.waits.map _ ++ [_] = _
    rw [hwaits]
    rfl
  refine ⟨fun hs => ?_, fun _ _ => ?_, fun wt hwt => ?_⟩
  · cases hs.symm.trans hstarted
  · show w.connecting + (w.wait delay).timer.waits.length = 1
    rw [hconnecting, hwait]
    rfl
  · rw [hwait, List.mem_singleton] at hwt
    rw [hwt]
    decide

theorem tryConnect_chained (hwaits : w.timer.waits = []) (hconnecting : w.connecting = 0)
    (hstarted : w.started = true) : w.tryConnect.Chained := by
  refine ⟨fun hs => ?_, fun _ _ => ?_, fun wt hwt => ?_⟩
  · cases hs.symm.trans hstarted
  · show w.connecting + 1 + w.timer.waits.length = 1
    rw [hconnecting, hwaits]
    rfl
  · have hwt' : wt ∈ w.timer.waits := hwt
    rw [hwaits] at hwt'
    cases hwt'

theorem started_of_pending (h : w.Chained) (hpos : 0 < w.continuations) : w.started = true := by
  cases hs : w.started with
  | true => rfl
  | false =>
    rw [h.fresh hs] at hpos
    cases hpos

/-- A handler runs when one continuation was left, and takes it. -/
theorem one_pending (h : w.Chained) (hcrashed : w.crashed = false) (hpos : 0 < w.continuations) :
    w.started = true ∧ w.connecting + w.timer.waits.length = 1 :=
  ⟨started_of_pending h hpos, h.one (started_of_pending h hpos) hcrashed⟩

theorem onConnect_chained (hwaits : w.timer.waits = []) (hconnecting : w.connecting = 0)
    (hstarted : w.started = true) (remoteEndpoint : Bool × Bool) (ok : Bool) :
    (w.onConnect remoteEndpoint ok).Chained := by
  unfold onConnect
  split
  · split
    · refine ⟨fun hs => ?_, nofun, fun wt hwt => ?_⟩
      · cases hs.symm.trans hstarted
      · have hwt' : wt ∈ w.timer.waits := hwt
        rw [hwaits] at hwt'
        cases hwt'
    · exact wait_chained (w := { w with
        connection := some w.made
        live := w.live ++ [w.made]
        made := w.made + 1 }) hwaits hconnecting hstarted _
  · exact wait_chained hwaits hconnecting hstarted _

theorem onConnect_crashed (h : w.crashed = false) (remoteEndpoint : Bool × Bool) (ok : Bool) :
    (w.onConnect remoteEndpoint ok).crashed =
      (ok && !(remoteEndpoint.1 && remoteEndpoint.2)) := by
  unfold onConnect
  cases ok with
  | false => exact h
  | true =>
    rw [if_pos rfl, Bool.true_and, Bool.not_and]
    split
    · next hthrow => exact hthrow.symm
    · next hthrow => exact h.trans (Bool.eq_false_iff.mpr hthrow).symm

theorem onTimer_chained (hwaits : w.timer.waits = []) (hconnecting : w.connecting = 0)
    (hstarted : w.started = true) {state : WaitState} (hstate : state ≠ .aborted) :
    (w.onTimer state).Chained ∧ (w.onTimer state).crashed = w.crashed ∧
      (w.onTimer state).started = true := by
  unfold onTimer
  rw [if_neg hstate]
  split
  · exact ⟨tryConnect_chained hwaits hconnecting hstarted, rfl, hstarted⟩
  · exact ⟨wait_chained hwaits hconnecting hstarted _, rfl, hstarted⟩

theorem expire_chained (h : w.Chained) {timer : Timer Unit}
    (hexpire : w.timer.expire w.now = some timer) : { w with timer }.Chained := by
  have hwaits := Timer.expire_spec hexpire
  have hcont : { w with timer }.continuations = w.continuations := by
    show w.connecting + timer.waits.length = _
    rw [hwaits, List.length_map]
    rfl
  refine ⟨fun hs => hcont.trans (h.fresh hs), fun hs hc => hcont.trans (h.one hs hc), ?_⟩
  intro wt hwt
  have hwt' : wt ∈ w.timer.waits.map (Wait.finish .expired) := by
    rw [← hwaits]
    exact hwt
  obtain ⟨wt', hmem, rfl⟩ := List.mem_map.mp hwt'
  unfold Wait.finish
  split
  · exact WaitState.noConfusion
  · exact h.kept wt' hmem

/-- What a step of a chained watcher does. A handler finds no other continuation
than the one that runs it. -/
inductive StepCases (w : ClusterWatcher) : Event → ClusterWatcher → Prop where
  | run (hstarted : w.started = false) (hconnecting : w.connecting = 0)
    (hwaits : w.timer.waits = []) : StepCases w .run { w with started := true }.tryConnect
  | connected (ok : Bool) (remoteEndpoint : Bool × Bool) (hpos : 0 < w.connecting)
    (hstarted : w.started = true) (hconnecting : w.connecting - 1 = 0)
    (hwaits : w.timer.waits = []) :
    StepCases w (.connected ok remoteEndpoint)
      ({ w with connecting := w.connecting - 1 }.onConnect remoteEndpoint ok)
  | timer (i : Nat) (wt : Wait Unit) (timer : Timer Unit) (hmem : wt ∈ w.timer.waits)
    (hstarted : w.started = true) (hconnecting : w.connecting = 0) (hwaits : timer.waits = []) :
    StepCases w (.timer i) ({ w with timer }.onTimer wt.state)
  | destroy (i : Nat) : StepCases w (.destroy i) { w with live := w.live.erase i }
  | tick (duration : Nat) : StepCases w (.tick duration) { w with now := w.now + duration }
  | expire (timer : Timer Unit) (hexpire : w.timer.expire w.now = some timer) :
    StepCases w .expire { w with timer }

theorem step_cases (h : w.Chained) {e : Event} (hstep : w.step e = some w') :
    w.crashed = false ∧ StepCases w e w' := by
  unfold step at hstep
  split at hstep
  · cases hstep
  next hcrashed =>
  have hc : w.crashed = false := Bool.eq_false_iff.mpr hcrashed
  refine ⟨hc, ?_⟩
  cases e with
  | run =>
    dsimp only at hstep
    split at hstep
    · cases hstep
    · next hs =>
      have hstarted := Bool.eq_false_iff.mpr hs
      obtain ⟨hconnecting, hwaits⟩ := Nat.add_eq_zero_iff.mp (h.fresh hstarted)
      cases hstep
      exact .run hstarted hconnecting (List.length_eq_zero_iff.mp hwaits)
  | connected ok remoteEndpoint =>
    dsimp only at hstep
    split at hstep
    · next hpos =>
      obtain ⟨hstarted, hsum⟩ := one_pending h hc (Nat.add_pos_left hpos _)
      cases hstep
      exact .connected ok remoteEndpoint hpos hstarted (by omega)
        (List.length_eq_zero_iff.mp (by omega))
    · cases hstep
  | timer i =>
    obtain ⟨⟨wt, timer⟩, htake, rfl⟩ := Option.map_eq_some_iff.mp hstep
    obtain ⟨hmem, hlen⟩ := Timer.take_spec htake
    obtain ⟨hstarted, hsum⟩ := one_pending h hc (by unfold continuations; omega)
    exact .timer i wt timer hmem hstarted (by omega) (List.length_eq_zero_iff.mp (by omega))
  | destroy i =>
    cases hstep
    exact .destroy i
  | tick duration =>
    cases hstep
    exact .tick duration
  | expire =>
    obtain ⟨timer, hexpire, rfl⟩ := Option.map_eq_some_iff.mp hstep
    exact .expire timer hexpire

/-- Every step keeps the chain, and a handler crashes exactly when a call that
throws fails. -/
theorem step_chained (h : w.Chained) {e : Event} (hstep : w.step e = some w') :
    w'.Chained ∧ w'.crashed = throws e ∧ (e.isHandler = true → w'.started = true) := by
  obtain ⟨hc, hcases⟩ := step_cases h hstep
  cases hcases with
  | run hstarted hconnecting hwaits =>
    exact ⟨tryConnect_chained hwaits hconnecting rfl, hc, fun _ => rfl⟩
  | connected ok remoteEndpoint hpos hstarted hconnecting hwaits =>
    have hchained := onConnect_chained (w := { w with connecting := w.connecting - 1 }) hwaits
      hconnecting hstarted remoteEndpoint ok
    have hcrashed := onConnect_crashed (w := { w with connecting := w.connecting - 1 }) hc
      remoteEndpoint ok
    refine ⟨hchained, hcrashed, fun _ => ?_⟩
    unfold onConnect
    split
    · split <;> exact hstarted
    · exact hstarted
  | timer i wt timer hmem hstarted hconnecting hwaits =>
    obtain ⟨hchained, hcrashed, hstarted'⟩ :=
      onTimer_chained (w := { w with timer }) hwaits hconnecting hstarted (h.kept wt hmem)
    exact ⟨hchained, hcrashed.trans hc, fun _ => hstarted'⟩
  | destroy i => exact ⟨⟨h.fresh, h.one, h.kept⟩, hc, nofun⟩
  | tick duration => exact ⟨⟨h.fresh, h.one, h.kept⟩, hc, nofun⟩
  | expire timer hexpire => exact ⟨expire_chained h hexpire, hc, nofun⟩

theorem goesOn (now : Int) : chain.GoesOn (init now) := by
  refine Chain.goesOn_of_invariant (I := Chained) ?_ (fun w h => h.one) (init_chained now) rfl
  intro w e w' h hstep
  exact step_chained h hstep

/-! ### The one connection -/

/-- The connection that is alive, if any, is the one `connection_` knows of. -/
def Known (w : ClusterWatcher) : Prop :=
  w.live = [] ∨ ∃ i, w.connection = some i ∧ w.live = [i]

/-- At most one connection is alive, and none before `run` and while a connect is
under way. -/
structure Single (w : ClusterWatcher) : Prop where
  chained : w.Chained
  fresh : w.started = false → w.live = []
  known : Known w
  alone : 0 < w.connecting → w.live = []

theorem init_single (now : Int) : Single (init now) :=
  ⟨init_chained now, fun _ => rfl, Or.inl rfl, nofun⟩

theorem live_of_expired (hknown : Known w) (hexpired : w.expired = true) : w.live = [] := by
  obtain hnone | ⟨i, hconnection, hlive⟩ := hknown
  · exact hnone
  · simp [expired, hconnection, hlive] at hexpired

theorem destroy_known (hknown : Known w) (i : Nat) : Known { w with live := w.live.erase i } := by
  obtain hnone | ⟨j, hconnection, hlive⟩ := hknown
  · left
    show w.live.erase i = []
    rw [hnone, List.erase_nil]
  · by_cases heq : j = i
    · left
      show w.live.erase i = []
      rw [hlive, heq, List.erase_cons_head]
    · right
      refine ⟨j, hconnection, ?_⟩
      show w.live.erase i = [j]
      rw [hlive, List.erase_of_not_mem fun hmem => heq (List.mem_singleton.mp hmem).symm]

/-- `on_connect` finds no connection alive. -/
theorem onConnect_known (hlive : w.live = []) (remoteEndpoint : Bool × Bool) (ok : Bool) :
    Known (w.onConnect remoteEndpoint ok) := by
  unfold onConnect
  split
  · split
    · exact Or.inl hlive
    · refine Or.inr ⟨w.made, rfl, ?_⟩
      show w.live ++ [w.made] = [w.made]
      rw [hlive, List.nil_append]
  · exact Or.inl hlive

theorem onConnect_connecting (remoteEndpoint : Bool × Bool) (ok : Bool) :
    (w.onConnect remoteEndpoint ok).connecting = w.connecting := by
  unfold onConnect
  split
  · split <;> rfl
  · rfl

theorem onTimer_known (hknown : Known w) (state : WaitState) : Known (w.onTimer state) := by
  unfold onTimer
  split
  · exact hknown
  · split <;> exact hknown

theorem onTimer_live (state : WaitState) : (w.onTimer state).live = w.live := by
  unfold onTimer
  split
  · rfl
  · split <;> rfl

/-- `on_timer` starts a connect only if no connection is alive. -/
theorem onTimer_alone (hknown : Known w) (hconnecting : w.connecting = 0) (state : WaitState) :
    0 < (w.onTimer state).connecting → (w.onTimer state).live = [] := by
  unfold onTimer
  split
  · intro hpos
    exact absurd hconnecting (Nat.pos_iff_ne_zero.mp hpos)
  · split
    · next hexpired => exact fun _ => live_of_expired hknown hexpired
    · intro hpos
      exact absurd hconnecting (Nat.pos_iff_ne_zero.mp hpos)

theorem step_single (h : Single w) {e : Event} (hstep : w.step e = some w') : Single w' := by
  obtain ⟨hchained, -, hstarted⟩ := step_chained h.chained hstep
  -- after a handler the watcher has been started
  have hfresh : e.isHandler = true → w'.started = false → w'.live = [] := by
    intro hhandler hs
    cases hs.symm.trans (hstarted hhandler)
  obtain ⟨-, hcases⟩ := step_cases h.chained hstep
  cases hcases with
  | run hnew hconnecting hwaits =>
    have hlive : w.live = [] := h.fresh hnew
    exact ⟨hchained, hfresh rfl, Or.inl hlive, fun _ => hlive⟩
  | connected ok remoteEndpoint hpos _ hconnecting hwaits =>
    refine ⟨hchained, hfresh rfl, onConnect_known (w := { w with connecting := w.connecting - 1 })
      (h.alone hpos) remoteEndpoint ok, fun hmore => ?_⟩
    rw [onConnect_connecting] at hmore
    exact absurd hconnecting (Nat.pos_iff_ne_zero.mp hmore)
  | timer i wt timer hmem _ hconnecting hwaits =>
    exact ⟨hchained, hfresh rfl, onTimer_known (w := { w with timer }) h.known wt.state,
      onTimer_alone (w := { w with timer }) h.known hconnecting wt.state⟩
  | destroy i =>
    have herase : w.live = [] → w.live.erase i = [] := by
      intro hnone
      rw [hnone, List.erase_nil]
    exact ⟨hchained, fun hs => herase (h.fresh hs), destroy_known h.known i,
      fun hpos => herase (h.alone hpos)⟩
  | tick duration => exact ⟨hchained, h.fresh, h.known, h.alone⟩
  | expire timer hexpire => exact ⟨hchained, h.fresh, h.known, h.alone⟩

/-- A step that starts a connect finds no connection alive. -/
theorem connect_alone (h : Single w) {e : Event} (hstep : w.step e = some w')
    (hmore : w.connecting < w'.connecting) : w.live = [] := by
  have hsingle := step_single h hstep
  have hnone : w'.live = [] := hsingle.alone (Nat.zero_lt_of_lt hmore)
  obtain ⟨-, hcases⟩ := step_cases h.chained hstep
  cases hcases with
  | run _ _ _ => exact hnone
  | connected ok remoteEndpoint _ _ _ _ =>
    rw [onConnect_connecting] at hmore
    exact absurd hmore (Nat.not_lt.mpr (Nat.sub_le _ _))
  | timer i wt timer _ _ _ _ =>
    exact (onTimer_live (w := { w with timer }) wt.state).symm.trans hnone
  | destroy i => exact absurd hmore (Nat.lt_irrefl _)
  | tick duration => exact hnone
  | expire timer _ => exact hnone

end ClusterWatcherLemmas

open ClusterWatcherLemmas in
/-- In every run of a watcher at most one connection is alive, a connect is
started only when none is, no wait is ever cancelled, and so `on_timer` is never
run for an aborted one. -/
theorem ClusterWatcher.one_connection (now : Int) {es : List ClusterWatcher.Event}
    {w : ClusterWatcher} (hrun : runEvents step (init now) es = some w) :
    w.live.length ≤ 1 ∧
      (∀ e w', w.step e = some w' → w.connecting < w'.connecting → w.live = []) ∧
      (∀ wt ∈ w.timer.waits, wt.state ≠ .aborted) ∧
      (∀ i wt timer, w.timer.take i = some (wt, timer) → wt.state ≠ .aborted) := by
  have h : Single w := run_invariant (fun _ _ _ hs hstep => step_single hs hstep)
    (init_single now) hrun
  refine ⟨?_, fun e w' hstep hmore => connect_alone h hstep hmore, h.chained.kept,
    fun i wt timer htake => h.chained.kept wt (Timer.take_spec htake).1⟩
  obtain hnone | ⟨i, -, hlive⟩ := h.known
  · rw [hnone]
    exact Nat.zero_le 1
  · rw [hlive]
    exact Nat.le_refl 1

/-- A connection is made, destroyed, and made again. -/
theorem ClusterWatcher.one_connection_again :
    ∃ w, runEvents step (init 0) [.run, .connected true (true, true), .destroy 0,
        .tick 30000000000, .expire, .timer 0, .connected true (true, true)] = some w ∧
      w.live = [1] ∧ w.live.length ≤ 1 := by
  obtain ⟨w, hrun⟩ : ∃ w, runEvents step (init 0) [.run, .connected true (true, true), .destroy 0,
      .tick 30000000000, .expire, .timer 0, .connected true (true, true)] = some w := ⟨_, rfl⟩
  refine ⟨w, hrun, ?_, (ClusterWatcher.one_connection 0 hrun).1⟩
  cases hrun
  rfl

end Ian.Cluster
