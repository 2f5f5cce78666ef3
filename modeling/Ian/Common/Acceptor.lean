import Ian.Lib.Chain
import Ian.Lib.Timer
import Mathlib.Tactic.Common

/-!
# Acceptors

What `WsAcceptor` and `ClusterAcceptor` share: the listening socket, `open`,
and the chain of handlers. An acceptor always has something that will run it
next, an accept that completes or a timer that expires; `Chained` says that it
has exactly one such continuation.

The outcome of a call on a socket is an argument of the function that makes the
call. An overload without an `error_code` throws when it fails. An exception
that leaves a handler leaves `io_context::run` and ends the worker thread:
`crashed` is set, and nothing happens any more.
-/

namespace Ian.Common

open Ian.Lib

structure Endpoint where
  address : String
  port : Nat
deriving DecidableEq, Repr

/-- The state of a listening socket. -/
inductive AcceptorState where
  | closed
  | opened
  | bound (e : Endpoint)
  | listening (e : Endpoint)
deriving DecidableEq, Repr

namespace AcceptorState

/-- `set_option`: whether it succeeds. -/
def setOption : AcceptorState → Bool → Bool
  | .closed, _ => false
  | _, ok => ok

/-- `open`, or `none` if it fails. -/
def openSocket : AcceptorState → Bool → Option AcceptorState
  | .closed, true => some .opened
  | _, _ => none

/-- `bind`, or `none` if it fails. -/
def bindTo (e : Endpoint) : AcceptorState → Bool → Option AcceptorState
  | .opened, true => some (.bound e)
  | _, _ => none

/-- `listen`, or `none` if it fails. -/
def listenOn : AcceptorState → Bool → Option AcceptorState
  | .bound e, true => some (.listening e)
  | _, _ => none

def isListening : AcceptorState → Bool
  | .listening _ => true
  | _ => false

end AcceptorState

/-- The values `open` reads from its `ConfigGroup`. -/
structure ListenConfig where
  ip : Option String
  port : Option Int
  reuseAddr : Option Bool
  safeLink : Option Bool
deriving DecidableEq, Repr

/-- The address, the port as the 16 bits the endpoint keeps. -/
def ListenConfig.endpoint (config : ListenConfig) (defaultIp : String) (defaultPort : Int) :
    Endpoint :=
  ⟨config.ip.getD defaultIp, ((config.port.getD defaultPort) % 65536).toNat⟩

/-- What the operating system answers to the calls `open` makes on an open
socket, and to its `close`. -/
structure OpenCalls where
  setOption : Bool
  openSocket : Bool
  bindTo : Bool
  listenOn : Bool
  close : Bool
deriving DecidableEq, Repr

/-- The `do` block of `open`: the acceptor after it, and whether `ec` is set. -/
def tryOpen (reuseAddr : Bool) (e : Endpoint) (calls : OpenCalls) (acceptor : AcceptorState) :
    AcceptorState × Bool :=
  if reuseAddr && !acceptor.setOption calls.setOption then (acceptor, true)
  else
    match acceptor.openSocket calls.openSocket with
    | none => (acceptor, true)
    | some acceptor =>
      match acceptor.bindTo e calls.bindTo with
      -- `close(ec)` stores its own result over the error.
      | none => (.closed, !calls.close)
      | some acceptor =>
        match acceptor.listenOn calls.listenOn with
        | none => (.closed, !calls.close)
        | some acceptor => (acceptor, false)

/-- The operating system accepts what `open` asks for on an open socket. -/
def OpenCalls.accepted (calls : OpenCalls) (reuseAddr : Bool) : Bool :=
  (!reuseAddr || calls.setOption) && calls.openSocket && calls.bindTo && calls.listenOn

/-- The outcomes for which the `do` block does not go wrong: without
`reuse_addr`, a failed `bind` or `listen` must be followed by a failed `close`;
with it, one of the calls would have to be refused anyway. -/
def OpenCalls.right (calls : OpenCalls) (reuseAddr : Bool) : Bool :=
  if reuseAddr then !calls.accepted true
  else !calls.openSocket || (calls.bindTo && calls.listenOn) || !calls.close

/-! ## The chain of handlers -/

/-- An acceptor object; `η` names the handlers its timer waits for. -/
structure Acceptor (η : Type) where
  acceptor : AcceptorState
  timer : Timer η
  safeLink : Bool
  -- Logs.
  /-- Outstanding `async_accept`s. -/
  accepting : Nat
  /-- The listening socket at each call of `accept_next`. -/
  acceptCalls : List AcceptorState
  /-- The number of connections made. -/
  made : Nat
  now : Int
  started : Bool
  crashed : Bool
deriving DecidableEq, Repr

namespace Acceptor

variable {η E : Type}

def init (now : Int) : Acceptor η :=
  { acceptor := .closed, timer := .init, safeLink := false, accepting := 0, acceptCalls := [],
    made := 0, now, started := false, crashed := false }

/-- An exception leaves the handler. -/
def throw (a : Acceptor η) : Acceptor η := { a with crashed := true }

/-- Wait for a timer. -/
def wait (a : Acceptor η) (delay : Int) (handler : η) : Acceptor η :=
  { a with timer := (a.timer.expiresFromNow a.now delay).asyncWait handler }

/-- `open` after it has its address: try, and try again in 10 s or go on to
`accept_next`. -/
def openWith (retry : η) (acceptNext : Acceptor η → Acceptor η) (reuseAddr : Bool) (e : Endpoint)
    (calls : OpenCalls) (a : Acceptor η) : Acceptor η :=
  let (acceptor, ec) := tryOpen reuseAddr e calls a.acceptor
  let a := { a with acceptor }
  if ec then a.wait (seconds 10) retry else acceptNext a

/-- `async_accept`. -/
def asyncAccept (a : Acceptor η) : Acceptor η := { a with accepting := a.accepting + 1 }

/-- The handlers of a class of acceptors; `E` are the outcomes of the calls a
handler makes. -/
structure Handlers (η E : Type) where
  openAcceptor : E → Acceptor η → Acceptor η
  onTimer : η → E → Acceptor η → Acceptor η
  onAccept : E → Bool → Acceptor η → Acceptor η

inductive Event (E : Type) where
  | run (env : E)
  | timer (i : Nat) (env : E)
  | accepted (ok : Bool) (env : E)
  | tick (duration : Nat)
  | expire

/-- The event runs a handler. -/
def Event.isHandler : Event E → Bool
  | .run _ => true
  | .timer _ _ => true
  | .accepted _ _ => true
  | _ => false

def Handlers.step (h : Handlers η E) (a : Acceptor η) (e : Event E) : Option (Acceptor η) :=
  if a.crashed then none
  else
    match e with
    | .run env =>
      if a.started then none else some (h.openAcceptor env { a with started := true })
    | .timer i env =>
      (a.timer.take i).map fun (w, timer) => h.onTimer w.handler env { a with timer }
    | .accepted ok env =>
      if 0 < a.accepting then some (h.onAccept env ok { a with accepting := a.accepting - 1 })
      else none
    | .tick duration => some { a with now := a.now + duration }
    | .expire => (a.timer.expire a.now).map fun timer => { a with timer }

/-- The number of things that will run the acceptor next. -/
def continuations (a : Acceptor η) : Nat := a.accepting + a.timer.waits.length

/-- While a handler runs, nothing else is going to. -/
structure Running (a : Acceptor η) : Prop where
  accepting : a.accepting = 0
  waits : a.timer.waits = []
  started : a.started = true
  crashed : a.crashed = false

/-- Between two handlers there is exactly one continuation, and before `run`
there is none. A handler for which `needsClosed` holds waits for its turn with
the listening socket closed. -/
structure Chained (needsClosed : η → Bool) (a : Acceptor η) : Prop where
  fresh : a.started = false → a.continuations = 0 ∧ a.acceptor = .closed
  one : a.started = true → a.crashed = false → a.continuations = 1
  closed : ∀ w ∈ a.timer.waits, needsClosed w.handler = true → a.acceptor = .closed

/-- What a handler leaves behind. -/
structure Resumes (needsClosed : η → Bool) (a : Acceptor η) : Prop where
  started : a.started = true
  one : a.crashed = false → a.continuations = 1
  closed : ∀ w ∈ a.timer.waits, needsClosed w.handler = true → a.acceptor = .closed

/-- Handlers that keep the chain going. -/
structure Handlers.Lawful (needsClosed : η → Bool) (h : Handlers η E) : Prop where
  openAcceptor : ∀ env a, a.Running → a.acceptor = .closed →
    (h.openAcceptor env a).Resumes needsClosed
  onTimer : ∀ k env a, a.Running → (needsClosed k = true → a.acceptor = .closed) →
    (h.onTimer k env a).Resumes needsClosed
  onAccept : ∀ env ok a, a.Running → (h.onAccept env ok a).Resumes needsClosed

theorem init_chained (needsClosed : η → Bool) (now : Int) :
    (init now : Acceptor η).Chained needsClosed :=
  ⟨fun _ => ⟨rfl, rfl⟩, nofun, nofun⟩

theorem Resumes.chained {needsClosed : η → Bool} {a : Acceptor η} (h : a.Resumes needsClosed) :
    a.Chained needsClosed := by
  refine ⟨fun hfresh => ?_, fun _ => h.one, h.closed⟩
  cases hfresh.symm.trans h.started

namespace AcceptorLemmas

variable {needsClosed : η → Bool} {a a' : Acceptor η}

/-- Something is pending only after `run`. -/
theorem started_of_pending (h : a.Chained needsClosed) (hpos : 0 < a.continuations) :
    a.started = true := by
  cases hs : a.started with
  | true => rfl
  | false =>
    rw [(h.fresh hs).1] at hpos
    cases hpos

theorem run_running (h : a.Chained needsClosed) (hs : a.started = false)
    (hc : a.crashed = false) : { a with started := true }.Running := by
  obtain ⟨haccepting, hwaits⟩ := Nat.add_eq_zero_iff.mp (h.fresh hs).1
  exact ⟨haccepting, List.length_eq_zero_iff.mp hwaits, rfl, hc⟩

theorem take_running (h : a.Chained needsClosed) (hc : a.crashed = false) {i : Nat} {w : Wait η}
    {timer : Timer η} (htake : a.timer.take i = some (w, timer)) : { a with timer }.Running := by
  obtain ⟨_, hlen⟩ := Timer.take_spec htake
  have hpos : 0 < a.continuations := by
    unfold continuations
    omega
  have hs := started_of_pending h hpos
  have hone := h.one hs hc
  unfold continuations at hone
  exact ⟨by show a.accepting = 0; omega,
    List.length_eq_zero_iff.mp (by show timer.waits.length = 0; omega), hs, hc⟩

theorem accepted_running (h : a.Chained needsClosed) (hc : a.crashed = false)
    (hpos : 0 < a.accepting) : { a with accepting := a.accepting - 1 }.Running := by
  have hs := started_of_pending h (Nat.add_pos_left hpos _)
  have hone := h.one hs hc
  unfold continuations at hone
  exact ⟨by show a.accepting - 1 = 0; omega,
    List.length_eq_zero_iff.mp (by show a.timer.waits.length = 0; omega), hs, hc⟩

theorem expire_chained (h : a.Chained needsClosed) {timer : Timer η}
    (hexpire : a.timer.expire a.now = some timer) : { a with timer }.Chained needsClosed := by
  have hwaits := Timer.expire_spec hexpire
  have hcont : { a with timer }.continuations = a.continuations := by
    show a.accepting + timer.waits.length = _
    rw [hwaits, List.length_map]
    rfl
  refine ⟨fun hs => ?_, fun hs hc => hcont.trans (h.one hs hc), fun w hw hn => ?_⟩
  · exact ⟨hcont.trans (h.fresh hs).1, (h.fresh hs).2⟩
  · have hw' : w ∈ a.timer.waits.map (Wait.finish .expired) := by
      rw [← hwaits]
      exact hw
    obtain ⟨w', hmem, rfl⟩ := List.mem_map.mp hw'
    rw [Wait.finish_handler] at hn
    exact h.closed w' hmem hn

theorem wait_continuations (h : a.timer.waits = []) (haccepting : a.accepting = 0) (delay : Int)
    (k : η) :
    (a.wait delay k).timer.waits = [⟨k, .waiting⟩] ∧ (a.wait delay k).continuations = 1 := by
  have hwaits : (a.wait delay k).timer.waits = [⟨k, .waiting⟩] := by
    show a.timer.waits.map _ ++ [_] = _
    rw [h]
    rfl
  refine ⟨hwaits, ?_⟩
  show a.accepting + (a.wait delay k).timer.waits.length = 1
  rw [hwaits, haccepting]
  rfl

/-- Waiting for a timer is a continuation. -/
theorem wait_resumes (h : a.Running) (delay : Int) {k : η}
    (hclosed : needsClosed k = true → a.acceptor = .closed) :
    (a.wait delay k).Resumes needsClosed := by
  obtain ⟨hwaits, hone⟩ := wait_continuations h.waits h.accepting delay k
  refine ⟨h.started, fun _ => hone, fun w hw hn => ?_⟩
  rw [hwaits, List.mem_singleton] at hw
  rw [hw] at hn
  exact hclosed hn

/-- So is an outstanding accept. -/
theorem asyncAccept_resumes (h : a.Running) : a.asyncAccept.Resumes needsClosed := by
  refine ⟨h.started, fun _ => ?_, fun w hw _ => ?_⟩
  · show a.accepting + 1 + a.timer.waits.length = 1
    rw [h.accepting, h.waits]
    rfl
  · have hw' : w ∈ a.timer.waits := hw
    rw [h.waits] at hw'
    cases hw'

theorem throw_resumes (h : a.Running) : a.throw.Resumes needsClosed := by
  refine ⟨h.started, nofun, fun w hw _ => ?_⟩
  have hw' : w ∈ a.timer.waits := hw
  rw [h.waits] at hw'
  cases hw'

/-- `open` on a closed acceptor, and what follows it. -/
theorem openWith_closed (hclosed : a.acceptor = .closed) (retry : η)
    (acceptNext : Acceptor η → Acceptor η) (reuseAddr : Bool) (e : Endpoint) (calls : OpenCalls) :
    a.openWith retry acceptNext reuseAddr e calls =
      if !reuseAddr && calls.openSocket then
        if calls.bindTo && calls.listenOn then acceptNext { a with acceptor := .listening e }
        else if calls.close then acceptNext { a with acceptor := .closed }
        else { a with acceptor := .closed }.wait (seconds 10) retry
      else { a with acceptor := .closed }.wait (seconds 10) retry := by
  unfold openWith
  rw [hclosed]
  obtain ⟨setOption, openSocket, bindTo, listenOn, close⟩ := calls
  cases reuseAddr <;> cases openSocket <;> cases bindTo <;> cases listenOn <;> cases close <;> rfl

theorem openWith_resumes (h : a.Running) (hclosed : a.acceptor = .closed) {retry : η}
    {acceptNext : Acceptor η → Acceptor η}
    (hnext : ∀ a : Acceptor η, a.Running → (acceptNext a).Resumes needsClosed) (reuseAddr : Bool)
    (e : Endpoint) (calls : OpenCalls) :
    (a.openWith retry acceptNext reuseAddr e calls).Resumes needsClosed := by
  have hrunning : ∀ acceptor, { a with acceptor }.Running :=
    fun _ => ⟨h.accepting, h.waits, h.started, h.crashed⟩
  rw [openWith_closed hclosed]
  split
  · split
    · exact hnext _ (hrunning _)
    split
    · exact hnext _ (hrunning _)
    · exact wait_resumes (hrunning .closed) _ fun _ => rfl
  · exact wait_resumes (hrunning .closed) _ fun _ => rfl

end AcceptorLemmas

open AcceptorLemmas

/-- What a step of the chain is. -/
inductive StepCases (h : Handlers η E) (needsClosed : η → Bool) (a : Acceptor η) :
    Event E → Acceptor η → Prop where
  | run (env : E) (hrunning : { a with started := true }.Running) (hclosed : a.acceptor = .closed) :
    StepCases h needsClosed a (.run env) (h.openAcceptor env { a with started := true })
  | timer (i : Nat) (env : E) (w : Wait η) (timer : Timer η)
    (htake : a.timer.take i = some (w, timer)) (hrunning : { a with timer }.Running)
    (hclosed : needsClosed w.handler = true → a.acceptor = .closed) :
    StepCases h needsClosed a (.timer i env) (h.onTimer w.handler env { a with timer })
  | accepted (ok : Bool) (env : E) (hpos : 0 < a.accepting)
    (hrunning : { a with accepting := a.accepting - 1 }.Running) :
    StepCases h needsClosed a (.accepted ok env)
      (h.onAccept env ok { a with accepting := a.accepting - 1 })
  | tick (duration : Nat) :
    StepCases h needsClosed a (.tick duration) { a with now := a.now + duration }
  | expire (timer : Timer η) (hexpire : a.timer.expire a.now = some timer) :
    StepCases h needsClosed a .expire { a with timer }

theorem step_cases {h : Handlers η E} {needsClosed : η → Bool} {a a' : Acceptor η} {e : Event E}
    (ha : a.Chained needsClosed) (hstep : h.step a e = some a') :
    StepCases h needsClosed a e a' := by
  unfold Handlers.step at hstep
  split at hstep
  · cases hstep
  next hcrashed =>
  have hc : a.crashed = false := Bool.eq_false_iff.mpr hcrashed
  cases e with
  | run env =>
    dsimp only at hstep
    split at hstep
    · cases hstep
    · next hs =>
      have hs : a.started = false := Bool.eq_false_iff.mpr hs
      cases hstep
      exact .run env (run_running ha hs hc) (ha.fresh hs).2
  | timer i env =>
    obtain ⟨⟨w, timer⟩, htake, rfl⟩ := Option.map_eq_some_iff.mp hstep
    exact .timer i env w timer htake (take_running ha hc htake)
      (ha.closed w (Timer.take_spec htake).1)
  | accepted ok env =>
    dsimp only at hstep
    split at hstep
    · next hpos =>
      cases hstep
      exact .accepted ok env hpos (accepted_running ha hc hpos)
    · cases hstep
  | tick duration =>
    cases hstep
    exact .tick duration
  | expire =>
    obtain ⟨timer, hexpire, rfl⟩ := Option.map_eq_some_iff.mp hstep
    exact .expire timer hexpire

/-- Lawful handlers keep the chain. -/
theorem Handlers.Lawful.step_chained {h : Handlers η E} {needsClosed : η → Bool}
    (hlawful : h.Lawful needsClosed) {a a' : Acceptor η} {e : Event E}
    (ha : a.Chained needsClosed) (hstep : h.step a e = some a') : a'.Chained needsClosed := by
  cases step_cases ha hstep with
  | run env hrunning hclosed => exact (hlawful.openAcceptor env _ hrunning hclosed).chained
  | timer i env w timer htake hrunning hclosed =>
    exact (hlawful.onTimer w.handler env _ hrunning hclosed).chained
  | accepted ok env hpos hrunning => exact (hlawful.onAccept env ok _ hrunning).chained
  | tick duration => exact ⟨ha.fresh, ha.one, ha.closed⟩
  | expire timer hexpire => exact expire_chained ha hexpire

/-- A handler has run after `run` only. -/
theorem Handlers.Lawful.step_started {h : Handlers η E} {needsClosed : η → Bool}
    (hlawful : h.Lawful needsClosed) {a a' : Acceptor η} {e : Event E}
    (ha : a.Chained needsClosed) (hstep : h.step a e = some a') (he : e.isHandler = true) :
    a'.started = true := by
  cases step_cases ha hstep with
  | run env hrunning hclosed => exact (hlawful.openAcceptor env _ hrunning hclosed).started
  | timer i env w timer htake hrunning hclosed =>
    exact (hlawful.onTimer w.handler env _ hrunning hclosed).started
  | accepted ok env hpos hrunning => exact (hlawful.onAccept env ok _ hrunning).started
  | tick duration => cases he
  | expire timer hexpire => cases he

/-- Nothing happens after a crash. -/
theorem Handlers.step_not_crashed {h : Handlers η E} {a a' : Acceptor η} {e : Event E}
    (hstep : h.step a e = some a') : a.crashed = false := by
  cases hc : a.crashed with
  | false => rfl
  | true =>
    unfold Handlers.step at hstep
    rw [if_pos hc] at hstep
    cases hstep

/-- An acceptor as a chain; `throws` tells which steps make a call that throws. -/
def Handlers.chain (h : Handlers η E) (throws : Acceptor η → Event E → Bool) :
    Chain (Acceptor η) (Event E) where
  step := h.step
  isHandler := Event.isHandler
  throws := throws
  started := started
  crashed := crashed
  continuations := continuations

theorem Handlers.Lawful.goesOn {h : Handlers η E} {needsClosed : η → Bool}
    (hlawful : h.Lawful needsClosed) {throws : Acceptor η → Event E → Bool}
    (hcrashed : ∀ a e a', a.Chained needsClosed → h.step a e = some a' → a'.crashed = throws a e)
    (now : Int) : (h.chain throws).GoesOn (init now) := by
  refine Chain.goesOn_of_invariant (I := Chained needsClosed) ?_ (fun a ha => ha.one)
    (init_chained needsClosed now) rfl
  intro a e a' ha hstep
  exact ⟨hlawful.step_chained ha hstep, hcrashed a e a' ha hstep, hlawful.step_started ha hstep⟩

/-! ## How `open` ends -/

/-- The acceptor has reached listening and `accept_next` was then called and has
left what `next` says. -/
def EndsListening (next : Endpoint → Acceptor η → Prop) (a a' : Acceptor η) : Prop :=
  ∃ e, a'.acceptCalls = a.acceptCalls ++ [.listening e] ∧ a'.crashed = false ∧ next e a'

/-- The acceptor is closed, and the retry timer is armed. -/
def EndsRetrying (retry : η) (a a' : Acceptor η) : Prop :=
  a'.acceptCalls = a.acceptCalls ∧ a'.crashed = false ∧ a'.acceptor = .closed ∧
    a'.timer.waits = [⟨retry, .waiting⟩]

/-- A run of `open` ends in one of these ways, in the first one if the operating
system accepts what it asks for. -/
def EndsRight (retry : η) (next : Endpoint → Acceptor η → Prop) (accepted : Bool)
    (a a' : Acceptor η) : Prop :=
  (EndsListening next a a' ∨ EndsRetrying retry a a') ∧ (accepted = true → EndsListening next a a')

/-- An accept is outstanding only on a listening socket, and a handler that goes
on accepting finds it listening. -/
structure Listening (needsClosed : η → Bool) (a : Acceptor η) : Prop where
  accepting : 0 < a.accepting → a.acceptor.isListening = true
  waits : ∀ w ∈ a.timer.waits, needsClosed w.handler = false → a.acceptor.isListening = true

theorem init_listening (needsClosed : η → Bool) (now : Int) :
    (init now : Acceptor η).Listening needsClosed := ⟨nofun, nofun⟩

namespace AcceptorLemmas

variable {retry : η} {next : Endpoint → Acceptor η → Prop} {a b : Acceptor η}

theorem endsRight_retrying (hretry : EndsRetrying retry a b) (accepted : Bool) :
    EndsRight retry next accepted a b ↔ accepted = false := by
  have hnot : ¬EndsListening next a b := by
    intro hlistening
    obtain ⟨e, hcalls, _⟩ := hlistening
    rw [hretry.1] at hcalls
    exact List.cons_ne_nil _ _ (List.self_eq_append_right.mp hcalls)
  constructor
  · intro h
    cases haccepted : accepted with
    | false => rfl
    | true => exact absurd (h.2 haccepted) hnot
  · intro h
    exact ⟨Or.inr hretry, fun haccepted => by cases h.symm.trans haccepted⟩

/-- A handler that calls `accept_next` on a closed acceptor has not ended right. -/
theorem not_endsRight_closed (hcalls : b.acceptCalls = a.acceptCalls ++ [.closed])
    (accepted : Bool) : ¬EndsRight retry next accepted a b := by
  intro h
  rcases h.1 with hlistening | hretry
  · obtain ⟨e, hcalls', _⟩ := hlistening
    have hlast := List.append_cancel_left (hcalls.symm.trans hcalls')
    cases hlast
  · exact List.cons_ne_nil _ _ (List.self_eq_append_right.mp (hretry.1.symm.trans hcalls))

theorem wait_retrying (hwaits : a.timer.waits = []) (hcrashed : a.crashed = false) (k : η) :
    EndsRetrying k a ({ a with acceptor := .closed }.wait (seconds 10) k) := by
  refine ⟨rfl, hcrashed, rfl, ?_⟩
  show a.timer.waits.map _ ++ [_] = _
  rw [hwaits]
  rfl

/-- A handler that gets to listening and calls `accept_next` ends right unless
that throws. -/
theorem endsRight_listening_iff {throws : Bool} {e : Endpoint}
    (hcalls : b.acceptCalls = a.acceptCalls ++ [.listening e])
    (hnext : b.crashed = throws ∧ (throws = false → next e b)) (accepted : Bool) :
    EndsRight retry next accepted a b ↔ throws = false := by
  obtain ⟨hcrashed, hleft⟩ := hnext
  constructor
  · intro hright
    rcases hright.1 with ⟨_, _, hc, _⟩ | ⟨_, hc, _⟩
    · exact hcrashed.symm.trans hc
    · exact hcrashed.symm.trans hc
  · intro hthrows
    have hlistening : EndsListening next a b := ⟨e, hcalls, hcrashed.trans hthrows, hleft hthrows⟩
    exact ⟨Or.inl hlistening, fun _ => hlistening⟩

/-- `open` ends right exactly for the right outcomes, if `accept_next` does not
throw in the end. -/
theorem openWith_endsRight (h : a.Running) (hclosed : a.acceptor = .closed)
    {acceptNext : Acceptor η → Acceptor η} {throws : Bool}
    (hcalls : ∀ b : Acceptor η, (acceptNext b).acceptCalls = b.acceptCalls ++ [b.acceptor])
    (hnext : ∀ e, (acceptNext { a with acceptor := .listening e }).crashed = throws ∧
      (throws = false → next e (acceptNext { a with acceptor := .listening e })))
    (reuseAddr : Bool) (e : Endpoint) (calls : OpenCalls) :
    EndsRight retry next (calls.accepted reuseAddr) a
        (a.openWith retry acceptNext reuseAddr e calls) ↔
      calls.right reuseAddr = true ∧
        (!reuseAddr && calls.openSocket && calls.bindTo && calls.listenOn && throws) = false := by
  have hretry := wait_retrying h.waits h.crashed retry
  rw [openWith_closed hclosed]
  obtain ⟨setOption, openSocket, bindTo, listenOn, close⟩ := calls
  cases reuseAddr with
  | true =>
    rw [if_neg (by simp), endsRight_retrying hretry]
    simp [OpenCalls.right]
  | false =>
    cases openSocket with
    | false =>
      rw [if_neg (by simp), endsRight_retrying hretry]
      simp [OpenCalls.right, OpenCalls.accepted]
    | true =>
      rw [if_pos (by simp)]
      dsimp only
      by_cases hboth : bindTo = true ∧ listenOn = true
      · obtain ⟨rfl, rfl⟩ := hboth
        rw [if_pos (Bool.and_self true)]
        have hlistens : EndsRight retry next
            (OpenCalls.accepted ⟨setOption, true, true, true, close⟩ false) a
            (acceptNext { a with acceptor := .listening e }) ↔ throws = false :=
          endsRight_listening_iff (hcalls _) (hnext e) _
        simp [OpenCalls.right, hlistens]
      · have hfails : (bindTo && listenOn) = false := by
          cases bindTo <;> cases listenOn <;> simp_all
        rw [hfails, if_neg (by simp)]
        cases close with
        | true =>
          rw [if_pos rfl]
          have hnot : ¬EndsRight retry next
              (OpenCalls.accepted ⟨setOption, true, bindTo, listenOn, true⟩ false) a
              (acceptNext { a with acceptor := .closed }) :=
            not_endsRight_closed (hcalls { a with acceptor := .closed }) _
          simp [OpenCalls.right, hfails, hnot]
        | false =>
          rw [if_neg (by simp), endsRight_retrying hretry]
          simp [OpenCalls.right, OpenCalls.accepted, hfails]

/-! ## Listening -/

variable {needsClosed : η → Bool}

/-- An acceptor that has exactly the wait for a handler that needs it closed. -/
theorem wait_listening (h : a.accepting = 0) {k : η} (hk : needsClosed k = true)
    (hwaits : a.timer.waits = [⟨k, .waiting⟩]) : a.Listening needsClosed := by
  refine ⟨fun hpos => absurd h (Nat.ne_of_gt hpos), fun w hw hn => ?_⟩
  rw [hwaits, List.mem_singleton] at hw
  rw [hw] at hn
  cases hk.symm.trans hn

theorem running_wait_listening (h : a.Running) (delay : Int) {k : η}
    (hk : needsClosed k = true) : (a.wait delay k).Listening needsClosed :=
  wait_listening h.accepting hk (wait_continuations h.waits h.accepting delay k).1

theorem throw_listening (h : a.Running) : a.throw.Listening needsClosed := by
  refine ⟨fun hpos => absurd h.accepting (Nat.ne_of_gt hpos), fun w hw _ => ?_⟩
  have hw' : w ∈ a.timer.waits := hw
  rw [h.waits] at hw'
  cases hw'

/-- `open` leaves an acceptor that listens or is closed, if it ends right. -/
theorem endsRight_listening {accepted : Bool} (h : EndsRight retry next accepted a b)
    (hresumes : b.Resumes needsClosed) (hretry : needsClosed retry = true)
    (hnext : ∀ e, next e b → b.continuations = 1 → b.Listening needsClosed) :
    b.Listening needsClosed := by
  rcases h.1 with ⟨e, _, hcrashed, hleft⟩ | ⟨_, hcrashed, _, hwaits⟩
  · exact hnext e hleft (hresumes.one hcrashed)
  · have hone := hresumes.one hcrashed
    unfold continuations at hone
    rw [hwaits, List.length_singleton] at hone
    exact wait_listening (by omega) hretry hwaits

theorem expire_listening (h : a.Listening needsClosed) {timer : Timer η}
    (hexpire : a.timer.expire a.now = some timer) : { a with timer }.Listening needsClosed := by
  refine ⟨h.accepting, fun w hw hn => ?_⟩
  have hw' : w ∈ a.timer.waits.map (Wait.finish .expired) := by
    rw [← Timer.expire_spec hexpire]
    exact hw
  obtain ⟨w', hmem, rfl⟩ := List.mem_map.mp hw'
  rw [Wait.finish_handler] at hn
  exact h.waits w' hmem hn

end AcceptorLemmas

/-- In every run, a call of `open` ends right if and only if its outcomes are
right; and as long as they all are, an accept is outstanding only on a listening
socket. `callsOpen` tells which steps call `open`. -/
def Handlers.OpensRight (h : Handlers η E) (callsOpen : Acceptor η → Event E → Option E)
    (right : E → Bool) (ends : E → Acceptor η → Acceptor η → Prop) (now : Int) : Prop :=
  ∀ es : List (Event E),
    AllSteps h.step (fun a e => ∀ env a', callsOpen a e = some env → h.step a e = some a' →
      (ends env a a' ↔ right env = true)) (init now) es ∧
    (AllSteps h.step (fun a e => (callsOpen a e).all right = true) (init now) es →
      ∀ a, runEvents h.step (init now) es = some a → 0 < a.accepting →
        a.acceptor.isListening = true)

theorem Handlers.Lawful.opensRight {h : Handlers η E} {needsClosed : η → Bool}
    (hlawful : h.Lawful needsClosed) {callsOpen : Acceptor η → Event E → Option E}
    {right : E → Bool} {ends : E → Acceptor η → Acceptor η → Prop}
    (hends : ∀ a e env a', a.Chained needsClosed → callsOpen a e = some env →
      h.step a e = some a' → (ends env a a' ↔ right env = true))
    (hlistening : ∀ a e a', a.Chained needsClosed → a.Listening needsClosed →
      (∀ env, callsOpen a e = some env → right env = true) → h.step a e = some a' →
      a'.Listening needsClosed) (now : Int) : h.OpensRight callsOpen right ends now := by
  intro es
  constructor
  · exact allSteps_of_invariant (fun a e a' ha hstep => hlawful.step_chained ha hstep)
      (fun a e ha env a' hcalls hstep => hends a e env a' ha hcalls hstep)
      (init_chained needsClosed now) es
  · intro hall a hrun
    have hinv : a.Chained needsClosed ∧ a.Listening needsClosed := by
      refine run_invariant_of (I := fun a => a.Chained needsClosed ∧ a.Listening needsClosed) ?_
        ⟨init_chained needsClosed now, init_listening needsClosed now⟩ hall hrun
      intro a e a' ha hall hstep
      have hright : ∀ env, callsOpen a e = some env → right env = true := by
        intro env hcalls
        rw [hcalls] at hall
        exact hall
      exact ⟨hlawful.step_chained ha.1 hstep, hlistening a e a' ha.1 ha.2 hright hstep⟩
    exact hinv.2.accepting

end Acceptor

end Ian.Common
