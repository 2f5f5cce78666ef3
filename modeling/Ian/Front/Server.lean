import Ian.Front.WsAcceptor
import Ian.Front.WsTeardown
import Ian.Lib.Admission

/-!
# The connections of a front server

The acceptors `server/front/src/Main.cpp` creates, one for each listener of the
configuration, and the connections they make. What they share is
`front::active_connection_count`: the constructor of a connection increments it,
the destructor decrements it, the acceptors compare it with the hard limit and
the connections with the soft limit.

The handlers of an acceptor run one after the other, and so do those of a
connection, but handlers of different objects run in different threads. Hence a
handler of an acceptor is not one step here: it makes its connection, reads the
counter for the first time, reads it in `accept_next` and then does the rest,
and anything can happen in between. `on_read_request` reads the counter and does
the rest later, too. A connection can be destroyed at any time, and nothing is
assumed about what an exception in one thread does to the others.
-/

namespace Ian.Front

open Ian.Lib Ian.Common

/-- How far a handler of an acceptor has come, with what it has read of
`front::active_connection_count`. -/
inductive Stage where
  | begun
  /-- `on_accept` has made a connection, if it makes one. -/
  | made
  /-- The counter has been read in `on_accept` or `on_timer_reopen`; for another
  handler it makes no difference. -/
  | tested (active : Int)
  /-- The counter has been read in `accept_next`. -/
  | decided (active activeNext : Int)
deriving DecidableEq, Repr

/-- A `WsAcceptor` and the handler of it that is running. -/
structure Listener where
  acceptor : Acceptor WsTimer
  running : Option (Acceptor.Event WsEnv × Stage)

/-- A `WsConnection`. -/
structure Client where
  connection : WsConnection
  /-- What `on_read_request` has read of the counter, while it runs. -/
  counted : Option Int
deriving DecidableEq, Repr

structure Server where
  listeners : List Listener
  /-- The live connections. -/
  clients : List Client
  /-- `front::active_connection_count`. It is not bounded here: an `int` can count
  more connections than a process can have sockets. -/
  active : Int
  now : Int

/-- The outcomes of a handler with the limit and what it has read of the
counter. -/
def WsEnv.withCounts (hard active activeNext : Int) (env : WsEnv) : WsEnv :=
  { env with connectionLimitHard := hard, active, activeNext }

/-- `on_accept` makes a connection unless one of the calls before it throws. -/
def makesConnection : Acceptor.Event WsEnv → Bool
  | .accepted ok env => ok && env.remoteEndpoint.1 && env.remoteEndpoint.2 && env.noDelay
  | _ => false

def withCounts (hard active activeNext : Int) : Acceptor.Event WsEnv → Acceptor.Event WsEnv
  | .run env => .run (env.withCounts hard active activeNext)
  | .timer i env => .timer i (env.withCounts hard active activeNext)
  | .accepted ok env => .accepted ok (env.withCounts hard active activeNext)
  | .tick duration => .tick duration
  | .expire => .expire

/-- A handler starts. It must be one that can run next. -/
def Listener.start (makeAddress : String → Bool) (e : Acceptor.Event WsEnv) (l : Listener) :
    Option Listener :=
  if l.running.isNone && e.isHandler &&
      ((WsAcceptor.handlers makeAddress).step l.acceptor e).isSome then
    some { l with running := some (e, .begun) }
  else none

/-- A timer expires. -/
def Listener.expire (makeAddress : String → Bool) (l : Listener) : Option Listener :=
  if l.running.isNone then
    ((WsAcceptor.handlers makeAddress).step l.acceptor .expire).map fun acceptor =>
      { l with acceptor }
  else none

/-- `on_read_request` reads the counter. -/
def Client.count (active : Int) (c : Client) : Option Client :=
  if c.counted.isNone && c.connection.pending.contains .requestRead then
    some { c with counted := some active }
  else none

/-- A step of a connection. While `on_read_request` runs, nothing but a timer
can happen to it, and a request is handled with the value read. -/
def Client.step (settings : Settings) (c : Client) (e : WsConnection.WsEvent) : Option Client :=
  match e with
  -- The clock is that of the server.
  | .tick _ => none
  | .expire id =>
    (c.connection.step settings (.expire id)).map fun connection => { c with connection }
  | .requestRead (.ok request) active =>
    if c.counted = some active then
      (c.connection.step settings (.requestRead (.ok request) active)).map fun connection =>
        ⟨connection, none⟩
    else none
  | e =>
    if c.counted.isNone then
      (c.connection.step settings e).map fun connection => { c with connection }
    else none

namespace Server

/-- The listeners before their `run`. -/
def init (listeners : Nat) (now : Int) : Server :=
  { listeners := List.replicate listeners ⟨Acceptor.init now, none⟩, clients := [], active := 0,
    now }

def setListener (s : Server) (i : Nat) (l : Listener) : Server :=
  { s with listeners := s.listeners.set i l }

def setClient (s : Server) (k : Nat) (c : Client) : Server :=
  { s with clients := s.clients.set k c }

/-- `make_shared<WsConnection>` and `run`. -/
def make (settings : Settings) (s : Server) : Server :=
  { s with
    clients := s.clients ++ [⟨(WsConnection.init s.now).run settings, none⟩]
    active := s.active + 1 }

/-- The destructor of a connection. -/
def destroy (k : Nat) (s : Server) : Option Server :=
  if k < s.clients.length then
    some { s with clients := s.clients.eraseIdx k, active := s.active - 1 }
  else none

/-- A handler of an acceptor goes on. -/
def advance (makeAddress : String → Bool) (settings : Settings) (hard : Int) (i : Nat)
    (l : Listener) (s : Server) : Option Server :=
  match l.running with
  | none => none
  | some (e, .begun) =>
    let s := s.setListener i { l with running := some (e, .made) }
    some (if makesConnection e then s.make settings else s)
  | some (e, .made) => some (s.setListener i { l with running := some (e, .tested s.active) })
  | some (e, .tested active) =>
    some (s.setListener i { l with running := some (e, .decided active s.active) })
  | some (e, .decided active activeNext) =>
    ((WsAcceptor.handlers makeAddress).step l.acceptor (withCounts hard active activeNext e)).map
      fun acceptor => s.setListener i ⟨acceptor, none⟩

/-- Time goes on for everybody. -/
def tick (duration : Nat) (s : Server) : Server :=
  { s with
    listeners := s.listeners.map fun l =>
      { l with acceptor := { l.acceptor with now := l.acceptor.now + duration } }
    clients := s.clients.map fun c =>
      { c with connection := { c.connection with now := c.connection.now + duration } }
    now := s.now + duration }

inductive Event where
  | start (i : Nat) (e : Acceptor.Event WsEnv)
  | advance (i : Nat)
  | expire (i : Nat)
  | count (k : Nat)
  | client (k : Nat) (e : WsConnection.WsEvent)
  | destroy (k : Nat)
  | tick (duration : Nat)

/-- One step of one thread, or of the environment. -/
def step (makeAddress : String → Bool) (settings : Settings) (hard : Int) (s : Server) :
    Event → Option Server
  | .start i e => s.listeners[i]?.bind fun l => (l.start makeAddress e).map (s.setListener i)
  | .advance i => s.listeners[i]?.bind fun l => s.advance makeAddress settings hard i l
  | .expire i => s.listeners[i]?.bind fun l => (l.expire makeAddress).map (s.setListener i)
  | .count k => s.clients[k]?.bind fun c => (c.count s.active).map (s.setClient k)
  | .client k e => s.clients[k]?.bind fun c => (c.step settings e).map (s.setClient k)
  | .destroy k => s.destroy k
  | .tick duration => some (s.tick duration)

end Server

/-! ## The hard limit -/

/-- Somebody may still come in through the listener: an accept is outstanding or
has completed and its connection is not made yet, or `accept_next` has found
the counter under the limit. -/
def Listener.committed (hard : Int) (l : Listener) : Bool :=
  match l.running with
  | none | some (_, .begun) => decide (0 < l.acceptor.accepting)
  | some (_, .made) | some (_, .tested _) => false
  | some (_, .decided _ activeNext) => decide (activeNext < hard)

/-- The handlers form a chain, and `on_accept` runs while its accept counts as
outstanding. -/
structure Listener.Valid (l : Listener) : Prop where
  chained : l.acceptor.Chained WsAcceptorLemmas.needsClosed
  handler : ∀ e stage, l.running = some (e, stage) → e.isHandler = true
  accepting : ∀ ok env stage, l.running = some (.accepted ok env, stage) →
    0 < l.acceptor.accepting

namespace Server

structure Valid (s : Server) : Prop where
  listeners : ∀ l ∈ s.listeners, l.Valid
  active : s.active = s.clients.length

def gate (hard : Int) (s : Server) : Gate :=
  ⟨s.clients.length, s.listeners.map (Listener.committed hard)⟩

end Server

namespace ServerLemmas

open WsAcceptor WsAcceptorLemmas Acceptor AcceptorLemmas

variable {makeAddress : String → Bool} {a a' : Acceptor WsTimer} {env : WsEnv} {hard : Int}

/-- `accept_next` starts an accept only if the value it reads is under the
limit. -/
theorem acceptNext_accepting (hmore : a.accepting < (acceptNext env a).accepting) :
    env.activeNext < env.connectionLimitHard := by
  unfold acceptNext at hmore
  dsimp only at hmore
  split at hmore
  · split at hmore <;> exact absurd hmore (Nat.lt_irrefl _)
  · next hlimit => exact Int.not_le.mp hlimit

theorem openAcceptor_accepting (hmore : a.accepting < (openAcceptor makeAddress env a).accepting) :
    env.activeNext < env.connectionLimitHard := by
  unfold openAcceptor openWith at hmore
  dsimp only at hmore
  split at hmore
  · exact absurd hmore (Nat.lt_irrefl _)
  split at hmore
  · exact absurd hmore (Nat.lt_irrefl _)
  · exact acceptNext_accepting (a := { a with acceptor := Prod.fst _ }) hmore

theorem acceptLater_accepting (hmore : a.accepting < (acceptLater env a).accepting) :
    env.activeNext < env.connectionLimitHard := by
  unfold acceptLater at hmore
  split at hmore
  · exact absurd hmore (Nat.lt_irrefl _)
  · exact acceptNext_accepting hmore

theorem onAccept_accepting {ok : Bool} (hmore : a.accepting < (onAccept env ok a).accepting) :
    env.activeNext < env.connectionLimitHard := by
  unfold onAccept at hmore
  split at hmore
  · split at hmore
    · exact absurd hmore (Nat.lt_irrefl _)
    · exact acceptLater_accepting (a := { a with made := a.made + 1 }) hmore
  · exact acceptLater_accepting hmore

theorem onTimerReopen_accepting
    (hmore : a.accepting < (onTimerReopen makeAddress env a).accepting) :
    env.activeNext < env.connectionLimitHard := by
  unfold onTimerReopen at hmore
  split at hmore
  · exact absurd hmore (Nat.lt_irrefl _)
  · exact openAcceptor_accepting hmore

/-- A handler leaves an accept outstanding only if the value it has read in
`accept_next` is under the limit. -/
theorem step_accepting {e : Acceptor.Event WsEnv} {active activeNext : Int}
    (hchained : a.Chained needsClosed) (hhandler : e.isHandler = true)
    (h : (handlers makeAddress).step a (withCounts hard active activeNext e) = some a')
    (hpos : 0 < a'.accepting) : activeNext < hard := by
  have hcases := step_cases hchained h
  cases e with
  | run env =>
    cases hcases with
    | run _ hrunning => exact openAcceptor_accepting (lt_of_eq_of_lt hrunning.accepting hpos)
  | timer i env =>
    cases hcases with
    | timer _ _ w timer _ hrunning =>
      obtain ⟨handler, state⟩ := w
      cases handler with
      | openAcceptor => exact openAcceptor_accepting (lt_of_eq_of_lt hrunning.accepting hpos)
      | acceptNext => exact acceptNext_accepting (lt_of_eq_of_lt hrunning.accepting hpos)
      | onTimerReopen => exact onTimerReopen_accepting (lt_of_eq_of_lt hrunning.accepting hpos)
  | accepted ok env =>
    cases hcases with
    | accepted _ _ _ hrunning => exact onAccept_accepting (lt_of_eq_of_lt hrunning.accepting hpos)
  | tick duration => cases hhandler
  | expire => cases hhandler

/-! ### Listeners -/

variable {l l' : Listener} {e : Acceptor.Event WsEnv}

theorem start_spec (hl : l.Valid) (h : l.start makeAddress e = some l') :
    l'.Valid ∧ l'.committed hard = l.committed hard := by
  unfold Listener.start at h
  split at h
  · next hcan =>
    cases h
    obtain ⟨hcan, hstep⟩ := Bool.and_eq_true_iff.mp hcan
    obtain ⟨hidle, hhandler⟩ := Bool.and_eq_true_iff.mp hcan
    rw [Option.isNone_iff_eq_none] at hidle
    refine ⟨⟨hl.chained, ?_, ?_⟩, ?_⟩
    · rintro _ _ ⟨⟩
      exact hhandler
    · rintro ok env _ ⟨⟩
      obtain ⟨a, ha⟩ := Option.isSome_iff_exists.mp hstep
      cases step_cases hl.chained ha with
      | accepted _ _ hpos => exact hpos
    · unfold Listener.committed
      rw [hidle]
  · cases h

theorem expire_spec (hl : l.Valid) (h : l.expire makeAddress = some l') :
    l'.Valid ∧ l'.committed hard = l.committed hard := by
  unfold Listener.expire at h
  split at h
  · next hidle =>
    rw [Option.isNone_iff_eq_none] at hidle
    obtain ⟨a, ha, rfl⟩ := Option.map_eq_some_iff.mp h
    have hchained := handlers_lawful.step_chained hl.chained ha
    cases step_cases hl.chained ha with
    | expire timer hexpire =>
      refine ⟨⟨hchained, fun e stage hrunning => ?_, fun ok env stage hrunning => ?_⟩, ?_⟩
      · cases hidle.symm.trans hrunning
      · cases hidle.symm.trans hrunning
      · rfl
  · cases h

theorem goOn_valid (hl : l.Valid) {stage : Stage} (h : l.running = some (e, stage))
    (stage' : Stage) : { l with running := some (e, stage') }.Valid := by
  refine ⟨hl.chained, ?_, ?_⟩
  · rintro _ _ ⟨⟩
    exact hl.handler e stage h
  · rintro ok env _ ⟨⟩
    exact hl.accepting ok env stage h

/-- The last stage of a handler. -/
theorem finish_spec (hl : l.Valid) {active activeNext : Int}
    (hrunning : l.running = some (e, .decided active activeNext))
    (h : (handlers makeAddress).step l.acceptor (withCounts hard active activeNext e) = some a') :
    (⟨a', none⟩ : Listener).Valid ∧
      ((⟨a', none⟩ : Listener).committed hard = true → l.committed hard = true) := by
  have hchained := handlers_lawful.step_chained hl.chained h
  refine ⟨⟨hchained, fun _ _ h => ?_, fun _ _ _ h => ?_⟩, fun hcommitted => ?_⟩
  · cases h
  · cases h
  have hpos : 0 < a'.accepting := of_decide_eq_true hcommitted
  unfold Listener.committed
  rw [hrunning]
  exact decide_eq_true (step_accepting hl.chained (hl.handler e _ hrunning) h hpos)

/-! ### Steps of the server -/

variable {settings : Settings} {s s' : Server} {i : Nat}

/-- A step keeps the server valid and is a step at the gate. -/
structure Keeps (hard : Int) (s s' : Server) : Prop where
  valid : s'.Valid
  gate : Gate.Step hard (s.gate hard) (s'.gate hard)

theorem gate_committed (hget : s.listeners[i]? = some l) :
    (s.gate hard).committed[i]? = some (l.committed hard) := by
  show (s.listeners.map _)[i]? = _
  rw [List.getElem?_map, hget]
  rfl

theorem setListener_gate (s : Server) (i : Nat) (l : Listener) :
    (s.setListener i l).gate hard =
      ⟨(s.gate hard).inside, (s.gate hard).committed.set i (l.committed hard)⟩ := by
  show Gate.mk _ ((s.listeners.set i l).map _) = _
  rw [List.map_set]
  rfl

theorem setListener_valid (hs : s.Valid) (hl : l.Valid) : (s.setListener i l).Valid := by
  refine ⟨fun l' hl' => ?_, hs.active⟩
  rcases List.mem_or_eq_of_mem_set hl' with hmem | rfl
  · exact hs.listeners l' hmem
  · exact hl

theorem setListener_keeps (hs : s.Valid) (hget : s.listeners[i]? = some l) (hl' : l'.Valid)
    (hcommitted : l'.committed hard = true → l.committed hard = true) :
    Keeps hard s (s.setListener i l') := by
  refine ⟨setListener_valid hs hl', ?_⟩
  rw [setListener_gate]
  exact Gate.step_set (gate_committed hget) hcommitted

/-- A listener that makes a connection is committed to it: it comes in through
the accept that has completed. -/
theorem make_keeps (hs : s.Valid) (hget : s.listeners[i]? = some l)
    {e : Acceptor.Event WsEnv} (hrunning : l.running = some (e, .begun))
    (hmakes : makesConnection e = true) :
    Keeps hard s ((s.setListener i { l with running := some (e, .made) }).make settings) := by
  have hl := hs.listeners l (List.mem_of_getElem? hget)
  have hmade := setListener_valid (i := i) hs (goOn_valid hl hrunning .made)
  refine ⟨⟨hmade.listeners, ?_⟩, ?_⟩
  · show s.active + 1 = ((s.clients ++ [_]).length : Nat)
    rw [hs.active, List.length_append]
    rfl
  · have hcommitted : l.committed hard = true := by
      unfold Listener.committed
      rw [hrunning]
      cases e with
      | accepted ok env => exact decide_eq_true (hl.accepting ok env _ hrunning)
      | run env => cases hmakes
      | timer i env => cases hmakes
      | tick duration => cases hmakes
      | expire => cases hmakes
    have henter : Gate.Step hard (s.gate hard) _ := .enter i (hcommitted ▸ gate_committed hget)
    have hgate : ((s.setListener i { l with running := some (e, .made) }).make settings).gate
        hard = ⟨(s.gate hard).inside + 1, (s.gate hard).committed.set i false⟩ := by
      show Gate.mk (s.clients ++ [_]).length ((s.listeners.set i _).map _) = _
      rw [List.length_append, List.map_set]
      rfl
    rw [hgate]
    exact henter

/-- The test of the counter in `accept_next` commits the listener to an accept,
or withdraws it. -/
theorem decide_keeps (hs : s.Valid) (hget : s.listeners[i]? = some l)
    {e : Acceptor.Event WsEnv} {active : Int} (hrunning : l.running = some (e, .tested active)) :
    Keeps hard s (s.setListener i { l with running := some (e, .decided active s.active) }) := by
  have hl := hs.listeners l (List.mem_of_getElem? hget)
  refine ⟨setListener_valid hs (goOn_valid hl hrunning _), ?_⟩
  rw [setListener_gate]
  by_cases hroom : s.active < hard
  · have hcommitted : Listener.committed hard
        { l with running := some (e, .decided active s.active) } = true := decide_eq_true hroom
    rw [hcommitted]
    exact .commit i (hs.active ▸ hroom)
  · have hcommitted : Listener.committed hard
        { l with running := some (e, .decided active s.active) } = false := decide_eq_false hroom
    rw [hcommitted]
    exact .withdraw i

theorem advance_keeps (hs : s.Valid) (hget : s.listeners[i]? = some l)
    (h : s.advance makeAddress settings hard i l = some s') : Keeps hard s s' := by
  have hl := hs.listeners l (List.mem_of_getElem? hget)
  unfold Server.advance at h
  split at h
  · cases h
  · next e hrunning =>
    cases h
    split
    · next hmakes => exact make_keeps hs hget hrunning hmakes
    · exact setListener_keeps hs hget (goOn_valid hl hrunning .made) nofun
  · next e hrunning =>
    cases h
    exact setListener_keeps hs hget (goOn_valid hl hrunning _) nofun
  · next e active hrunning =>
    cases h
    exact decide_keeps hs hget hrunning
  · next e active activeNext hrunning =>
    obtain ⟨a, ha, rfl⟩ := Option.map_eq_some_iff.mp h
    obtain ⟨hvalid, hcommitted⟩ := finish_spec hl hrunning ha
    exact setListener_keeps hs hget hvalid hcommitted

theorem setClient_keeps (hs : s.Valid) (k : Nat) (c : Client) : Keeps hard s (s.setClient k c) := by
  have hlength : (s.clients.set k c).length = s.clients.length := List.length_set
  refine ⟨⟨hs.listeners, ?_⟩, ?_⟩
  · show s.active = ((s.clients.set k c).length : Nat)
    rw [hlength]
    exact hs.active
  · have hgate : (s.setClient k c).gate hard = s.gate hard := by
      show Gate.mk (s.clients.set k c).length _ = _
      rw [hlength]
      rfl
    rw [hgate]
    exact .stay

theorem destroy_keeps (hs : s.Valid) {k : Nat} (h : s.destroy k = some s') : Keeps hard s s' := by
  unfold Server.destroy at h
  split at h
  · next hk =>
    cases h
    have hlength := List.length_eraseIdx_of_lt hk
    refine ⟨⟨hs.listeners, ?_⟩, ?_⟩
    · show s.active - 1 = ((s.clients.eraseIdx k).length : Nat)
      rw [hs.active, hlength]
      omega
    · have hleave : Gate.Step hard (s.gate hard) _ := .leave
      have hgate : Server.gate hard
            { s with clients := s.clients.eraseIdx k, active := s.active - 1 } =
          ⟨(s.gate hard).inside - 1, (s.gate hard).committed⟩ := by
        show Gate.mk (s.clients.eraseIdx k).length _ = _
        rw [hlength]
        rfl
      rw [hgate]
      exact hleave
  · cases h

theorem tick_keeps (hs : s.Valid) (duration : Nat) : Keeps hard s (s.tick duration) := by
  refine ⟨⟨fun l hl => ?_, ?_⟩, ?_⟩
  · obtain ⟨l, hmem, rfl⟩ := List.mem_map.mp hl
    have hvalid := hs.listeners l hmem
    exact ⟨⟨hvalid.chained.fresh, hvalid.chained.one, hvalid.chained.closed⟩, hvalid.handler,
      hvalid.accepting⟩
  · show s.active = ((s.clients.map _).length : Nat)
    rw [List.length_map]
    exact hs.active
  · have hgate : (s.tick duration).gate hard = s.gate hard := by
      show Gate.mk (s.clients.map _).length ((s.listeners.map _).map _) = _
      rw [List.length_map, List.map_map]
      rfl
    rw [hgate]
    exact .stay

theorem step_keeps {e : Server.Event} (hs : s.Valid)
    (h : s.step makeAddress settings hard e = some s') : Keeps hard s s' := by
  cases e with
  | start i e =>
    obtain ⟨l, hget, h⟩ := Option.bind_eq_some_iff.mp h
    obtain ⟨l', hl', rfl⟩ := Option.map_eq_some_iff.mp h
    obtain ⟨hvalid, hsame⟩ := start_spec (hs.listeners l (List.mem_of_getElem? hget)) hl'
    exact setListener_keeps hs hget hvalid hsame.symm.trans
  | advance i =>
    obtain ⟨l, hget, h⟩ := Option.bind_eq_some_iff.mp h
    exact advance_keeps hs hget h
  | expire i =>
    obtain ⟨l, hget, h⟩ := Option.bind_eq_some_iff.mp h
    obtain ⟨l', hl', rfl⟩ := Option.map_eq_some_iff.mp h
    obtain ⟨hvalid, hsame⟩ := expire_spec (hs.listeners l (List.mem_of_getElem? hget)) hl'
    exact setListener_keeps hs hget hvalid hsame.symm.trans
  | count k =>
    obtain ⟨c, _, h⟩ := Option.bind_eq_some_iff.mp h
    obtain ⟨c', _, rfl⟩ := Option.map_eq_some_iff.mp h
    exact setClient_keeps hs k c'
  | client k e =>
    obtain ⟨c, _, h⟩ := Option.bind_eq_some_iff.mp h
    obtain ⟨c', _, rfl⟩ := Option.map_eq_some_iff.mp h
    exact setClient_keeps hs k c'
  | destroy k => exact destroy_keeps hs h
  | tick duration =>
    cases h
    exact tick_keeps hs duration

/-- What holds throughout a run with `n` listeners. -/
structure Limited (hard : Int) (n : Nat) (s : Server) : Prop where
  valid : s.Valid
  bounded : (s.gate hard).Bounded hard
  doors : (s.gate hard).committed.length = n

theorem init_valid (n : Nat) (now : Int) : (Server.init n now).Valid := by
  refine ⟨fun l hl => ?_, rfl⟩
  rw [List.eq_of_mem_replicate hl]
  refine ⟨init_chained _ now, fun _ _ h => ?_, fun _ _ _ h => ?_⟩
  · cases h
  · cases h

theorem init_limited (hhard : 1 ≤ hard) (n : Nat) (now : Int) :
    Limited hard n (Server.init n now) := by
  have hdoors : ((Server.init n now).gate hard).committed = List.replicate n false := by
    show (List.replicate n _).map _ = _
    rw [List.map_replicate]
    rfl
  refine ⟨init_valid n now, ?_, ?_⟩
  · unfold Gate.Bounded
    rw [hdoors, List.count_replicate, List.length_replicate]
    show (0 : Int) + 0 < hard + n
    omega
  · rw [hdoors, List.length_replicate]

theorem run_limited (hhard : 1 ≤ hard) {n : Nat} {now : Int} {es : List Server.Event}
    (h : runEvents (Server.step makeAddress settings hard) (.init n now) es = some s) :
    Limited hard n s := by
  refine run_invariant (fun s e s' hs hstep => ?_) (init_limited hhard n now) h
  have hkeeps := step_keeps hs.valid hstep
  exact ⟨hkeeps.valid, hkeeps.gate.bounded hs.bounded, hkeeps.gate.doors.trans hs.doors⟩

end ServerLemmas

open ServerLemmas

/-- In every run of a server with `n` listeners, `active_connection_count` is the
number of live connections. It exceeds the hard limit by one for every further
listener at most. -/
theorem hard_limit_holds (makeAddress : String → Bool) (settings : Settings) (hard : Int)
    (hhard : 1 ≤ hard) (n : Nat) (now : Int) (es : List Server.Event) (s : Server)
    (h : runEvents (Server.step makeAddress settings hard) (.init n now) es = some s) :
    s.active = s.clients.length ∧ s.active ≤ hard + n - 1 ∧ (n = 1 → s.active ≤ hard) := by
  obtain ⟨hvalid, hbounded, hdoors⟩ := run_limited hhard h
  have hactive := hvalid.active
  have hinside : (s.clients.length : Int) + (s.gate hard).committed.count true < hard + n := by
    rw [← hdoors]
    exact hbounded
  refine ⟨hactive, ?_, fun hone => ?_⟩
  · omega
  · omega

/-- A handler of a listener runs from its start to its end. -/
def handled (i : Nat) (e : Acceptor.Event WsEnv) : List Server.Event :=
  [.start i e, .advance i, .advance i, .advance i, .advance i]

/-- Two listeners arm an accept each, and then both accepts complete. -/
def crowdedRun : List Server.Event :=
  handled 0 (.run (quietEnv false allCalls)) ++ handled 1 (.run (quietEnv false allCalls)) ++
    handled 0 (.accepted true (quietEnv false allCalls)) ++
    handled 1 (.accepted true (quietEnv false allCalls))

/-- The bound is reached. -/
theorem hard_limit_holds_two :
    ∃ s, runEvents (Server.step numericAddress defaultSettings 1) (.init 2 0) crowdedRun = some s ∧
      s.active = 2 ∧ s.active = s.clients.length ∧ s.active ≤ 1 + (2 : Nat) - 1 := by
  obtain ⟨hactive, hbound, _⟩ := hard_limit_holds numericAddress defaultSettings 1
    (by decide) 2 0 crowdedRun _ rfl
  exact ⟨_, rfl, rfl, hactive, hbound⟩

end Ian.Front
