import Ian.Common.Acceptor
import Ian.Lib.Progress

/-!
# Acceptors that come back

An acceptor that cannot open, or that has closed at the connection limit, waits
and tries again. No handler sets the timer to more than 10 s (`Handlers.Timely`),
and so an acceptor that waits is back after one such time and another one for
each attempt that fails (`Handlers.Lawful.comesBack`).
-/

namespace Ian.Common

open Ian.Lib

namespace Acceptor

variable {η E : Type}

/-- What a handler leaves: the time as it was, and the timer set to 10 s at most. -/
def Soon (now : Int) (a : Acceptor η) : Prop :=
  a.now = now ∧ (a.timer.waits ≠ [] → a.timer.expiry ≤ now + seconds 10)

/-- Handlers that do not wait for long. -/
structure Handlers.Timely (h : Handlers η E) : Prop where
  openAcceptor : ∀ env a, a.Running → Soon a.now (h.openAcceptor env a)
  onTimer : ∀ k env a, a.Running → Soon a.now (h.onTimer k env a)
  onAccept : ∀ env ok a, a.Running → Soon a.now (h.onAccept env ok a)

/-- Nothing happens but that the timer's handler runs, or the time comes for it.
No call of the handler throws, and `open` ends right. -/
def Prompt (callsOpen : Acceptor η → Event E → Option E) (right : E → Bool)
    (throws : Acceptor η → Event E → Bool) (a : Acceptor η) : Event E → Prop
  | .timer i env =>
    throws a (.timer i env) = false ∧ (callsOpen a (.timer i env)).all right = true
  | .tick duration => a.timer.Comes a.now duration
  | .expire => a.timer.Sleeps
  | _ => False

/-- The timer's handler does not find everything well. -/
def Event.fails (good : E → Bool) : Event E → Bool
  | .timer _ env => !good env
  | _ => false

/-- From every state of a run, an acceptor that has been started gets to an accept
on a listening socket, with at most `k` attempts that fail in between, and after
no more than 10 s for each of them and 10 s more. -/
def Handlers.ComesBack (h : Handlers η E) (callsOpen : Acceptor η → Event E → Option E)
    (right : E → Bool) (throws : Acceptor η → Event E → Bool) (good : E → Bool) (now : Int) :
    Prop :=
  ∀ (es : List (Event E)) (a : Acceptor η) (k : Nat),
    AllSteps h.step (fun a e => (callsOpen a e).all right = true) (init now) es →
    runEvents h.step (init now) es = some a → a.started = true → a.crashed = false →
    EndsWithin (rationed h.step (Event.fails good))
      (fun s e => s.1.Prompt callsOpen right throws e)
      (fun s => 0 < s.1.accepting ∧ s.1.acceptor.isListening = true ∧
        s.1.now ≤ a.now + seconds (10 * (k + 1))) (a, k) (3 * (k + 1))

/-- What the handlers of a class of acceptors have to do to come back. -/
structure Handlers.Returning (needsClosed : η → Bool) (h : Handlers η E)
    (callsOpen : Acceptor η → Event E → Option E) (right : E → Bool)
    (throws : Acceptor η → Event E → Bool) (good : E → Bool) : Prop where
  lawful : h.Lawful needsClosed
  timely : h.Timely
  crashed : ∀ a e a', a.Chained needsClosed → h.step a e = some a' → a'.crashed = throws a e
  listening : ∀ a e a', a.Chained needsClosed → a.Listening needsClosed →
    (∀ env, callsOpen a e = some env → right env = true) → h.step a e = some a' →
    a'.Listening needsClosed
  accepts : ∀ k env a, a.Running → (needsClosed k = true → a.acceptor = .closed) →
    good env = true → (h.onTimer k env a).crashed = false → 0 < (h.onTimer k env a).accepting
  possible : ∃ env, good env = true ∧
    ∀ (a : Acceptor η) (i : Nat), a.Chained needsClosed →
      a.Prompt callsOpen right throws (.timer i env)

namespace AcceptorLemmas

variable {needsClosed : η → Bool} {a a' : Acceptor η} {h : Handlers η E}

/-! ## What the handlers leave -/

theorem wait_soon (a : Acceptor η) {delay : Int} (hdelay : delay ≤ seconds 10) (k : η) :
    Soon a.now (a.wait delay k) :=
  ⟨rfl, fun _ => Int.add_le_add_left hdelay a.now⟩

theorem throw_soon (hrunning : a.Running) : Soon a.now a.throw :=
  ⟨rfl, fun hmore => absurd hrunning.waits hmore⟩

theorem asyncAccept_soon (hrunning : a.Running) : Soon a.now a.asyncAccept :=
  ⟨rfl, fun hmore => absurd hrunning.waits hmore⟩

theorem openWith_soon {retry : η} {acceptNext : Acceptor η → Acceptor η}
    (hnext : ∀ acceptor, Soon a.now (acceptNext { a with acceptor })) (reuseAddr : Bool)
    (e : Endpoint) (calls : OpenCalls) :
    Soon a.now (a.openWith retry acceptNext reuseAddr e calls) := by
  unfold openWith
  dsimp only
  split
  · exact wait_soon { a with acceptor := Prod.fst _ } (Int.le_refl _) retry
  · exact hnext _

/-- The timer is never set to more than 10 s from now. -/
theorem step_soon (htimely : h.Timely) (ha : a.Chained needsClosed)
    (hsoon : a.timer.waits ≠ [] → a.timer.expiry ≤ a.now + seconds 10) {e : Event E}
    (hstep : h.step a e = some a') :
    a'.timer.waits ≠ [] → a'.timer.expiry ≤ a'.now + seconds 10 := by
  have hof : Soon a.now a' → a'.timer.waits ≠ [] → a'.timer.expiry ≤ a'.now + seconds 10 := by
    intro ha'
    rw [ha'.1]
    exact ha'.2
  cases step_cases ha hstep with
  | run env hrunning _ => exact hof (htimely.openAcceptor env _ hrunning)
  | timer i env w timer _ hrunning _ => exact hof (htimely.onTimer w.handler env _ hrunning)
  | accepted ok env _ hrunning => exact hof (htimely.onAccept env ok _ hrunning)
  | tick duration =>
    intro hmore
    have hle := hsoon hmore
    show a.timer.expiry ≤ a.now + duration + seconds 10
    omega
  | expire timer hexpire =>
    intro hmore
    show timer.expiry ≤ a.now + seconds 10
    rw [(Timer.expire_due hexpire).1]
    refine hsoon fun hnone => hmore ?_
    show timer.waits = []
    rw [Timer.expire_spec hexpire, hnone]
    rfl

/-! ## Coming back -/

/-- An acceptor that waits for its timer has one wait and no accept. -/
theorem one_wait (ha : a.Chained needsClosed) (hstarted : a.started = true)
    (hcrashed : a.crashed = false) {w : Wait η} (hw : w ∈ a.timer.waits) :
    ∃ w, a.timer.waits = [w] := by
  have hone := ha.one hstarted hcrashed
  have hpos := List.length_pos_of_mem hw
  unfold continuations at hone
  exact List.length_eq_one_iff.mp (by omega)

/-- When an acceptor is back that left at time `t`, with `k` attempts that may fail
of which `r` are left. -/
def limit (t : Int) (k r : Nat) : Int := t + seconds (10 * (k + 1 - r))

theorem limit_next (t : Int) (k r : Nat) : limit t k (r + 1) + seconds 10 = limit t k r := by
  unfold limit seconds
  omega

theorem limit_le (t : Int) (k r : Nat) : limit t k r ≤ t + seconds (10 * (k + 1)) := by
  unfold limit seconds
  omega

/-- An acceptor on its way back. -/
structure Ready (needsClosed : η → Bool) (t : Int) (k : Nat) (a : Acceptor η) (r : Nat) :
    Prop where
  chained : a.Chained needsClosed
  listening : a.Listening needsClosed
  started : a.started = true
  crashed : a.crashed = false
  now : a.now ≤ limit t k r
  soon : a.timer.waits ≠ [] → a.timer.expiry ≤ limit t k r

/-- The steps it has to take. -/
def distance (a : Acceptor η) (r : Nat) : Nat := a.timer.away a.now + 3 * r

variable {callsOpen : Acceptor η → Event E → Option E} {right : E → Bool}
  {throws : Acceptor η → Event E → Bool} {good : E → Bool} {t : Int} {k r r' : Nat}

/-- The timer's handler leaves an accept, or an attempt has failed. -/
theorem timer_ready (hreturning : h.Returning needsClosed callsOpen right throws good)
    (ha : Ready needsClosed t k a r) {i : Nat} {env : E} {w : Wait η} {timer : Timer η}
    (htake : a.timer.take i = some (w, timer)) (hrunning : { a with timer }.Running)
    (hclosed : needsClosed w.handler = true → a.acceptor = .closed)
    (hprompt : a.Prompt callsOpen right throws (.timer i env))
    (hstep : h.step a (.timer i env) = some (h.onTimer w.handler env { a with timer }))
    (hration : r' + (Event.fails good (.timer i env)).toNat = r) :
    Ready needsClosed t k (h.onTimer w.handler env { a with timer }) r' ∧
      distance (h.onTimer w.handler env { a with timer }) r' < distance a r := by
  obtain ⟨w', hwaits⟩ := one_wait ha.chained ha.started ha.crashed (Timer.take_spec htake).1
  have haway := (Timer.take_one a.now hwaits htake).2.2
  have hthen := hreturning.lawful.step_chained ha.chained hstep
  have hstarted := hreturning.lawful.step_started ha.chained hstep rfl
  have hcrashed := (hreturning.crashed _ _ _ ha.chained hstep).trans hprompt.1
  have hlistening := hreturning.listening _ _ _ ha.chained ha.listening (fun env' hcalls => by
    have hall := hprompt.2
    rwa [hcalls] at hall) hstep
  obtain ⟨hnow, hsoon⟩ := hreturning.timely.onTimer w.handler env _ hrunning
  have hnow' : (h.onTimer w.handler env { a with timer }).now ≤ limit t k r :=
    Int.le_trans (Int.le_of_eq hnow) ha.now
  unfold distance
  cases hgood : good env with
  | true =>
    have hsame : r' = r := by
      rw [← hration, Event.fails, hgood]
      rfl
    have hpos := hreturning.accepts w.handler env _ hrunning hclosed hgood hcrashed
    have hnone : (h.onTimer w.handler env { a with timer }).timer.waits = [] := by
      have hone := hthen.one hstarted hcrashed
      unfold continuations at hone
      exact List.length_eq_zero_iff.mp (by omega)
    refine ⟨⟨hthen, hlistening, hstarted, hcrashed, hsame ▸ hnow', fun hmore => ?_⟩, ?_⟩
    · exact absurd hnone hmore
    · rw [Timer.away_of_none hnone, haway, hsame]
      omega
  | false =>
    have hless : r' + 1 = r := by
      rw [← hration, Event.fails, hgood]
      rfl
    have hnext := limit_next t k r'
    rw [hless] at hnext
    have hten : (0 : Int) ≤ seconds 10 := by decide
    refine ⟨⟨hthen, hlistening, hstarted, hcrashed, by omega, fun hmore => ?_⟩, ?_⟩
    · have hexpiry := hsoon hmore
      have hbefore : ({ a with timer } : Acceptor η).now = a.now := rfl
      have hnowa := ha.now
      omega
    · have hle := (h.onTimer w.handler env { a with timer }).timer.away_le
        (h.onTimer w.handler env { a with timer }).now
      omega

/-- A prompt step of an acceptor on its way back. -/
theorem step_ready (hreturning : h.Returning needsClosed callsOpen right throws good)
    (ha : Ready needsClosed t k a r) {e : Event E} (hprompt : a.Prompt callsOpen right throws e)
    (hstep : h.step a e = some a') (hration : r' + (Event.fails good e).toNat = r) :
    Ready needsClosed t k a' r' ∧ distance a' r' < distance a r := by
  have hthen := hreturning.lawful.step_chained ha.chained hstep
  cases step_cases ha.chained hstep with
  | run env _ _ => exact absurd hprompt id
  | accepted ok env _ _ => exact absurd hprompt id
  | timer i env w timer htake hrunning hclosed =>
    exact timer_ready hreturning ha htake hrunning hclosed hprompt hstep hration
  | tick duration =>
    obtain rfl : r' = r := hration
    obtain ⟨⟨w, hw, -⟩, -, hthere⟩ := id hprompt
    obtain ⟨w, hwaits⟩ := one_wait ha.chained ha.started ha.crashed hw
    refine ⟨⟨hthen, ⟨ha.listening.accepting, ha.listening.waits⟩, ha.started, ha.crashed, ?_,
      ha.soon⟩, ?_⟩
    · show a.now + duration ≤ _
      rw [hthere]
      exact ha.soon (List.ne_nil_of_mem hw)
    · exact Nat.add_lt_add_right (Timer.comes_away hwaits hprompt) _
  | expire timer hexpire =>
    obtain rfl : r' = r := hration
    obtain ⟨w, hw, -⟩ := id hprompt
    obtain ⟨w, hwaits⟩ := one_wait ha.chained ha.started ha.crashed hw
    refine ⟨⟨hthen, expire_listening ha.listening hexpire, ha.started, ha.crashed, ha.now,
      fun _ => ?_⟩, ?_⟩
    · show timer.expiry ≤ _
      rw [(Timer.expire_due hexpire).1]
      exact ha.soon (List.ne_nil_of_mem hw)
    · exact Nat.add_lt_add_right (Timer.expire_away hwaits hprompt hexpire) _

/-- An acceptor that waits goes on. -/
theorem ready_goesOn (hreturning : h.Returning needsClosed callsOpen right throws good)
    (ha : Ready needsClosed t k a r) (hnot : a.accepting = 0) : ∃ e a',
      a.Prompt callsOpen right throws e ∧ Event.fails good e = false ∧ h.step a e = some a' := by
  obtain ⟨w, hwaits⟩ : ∃ w, a.timer.waits = [w] := by
    have hone := ha.chained.one ha.started ha.crashed
    unfold continuations at hone
    exact List.length_eq_one_iff.mp (by omega)
  have hrunning : ¬a.crashed = true := by
    rw [ha.crashed]
    exact Bool.false_ne_true
  rcases Timer.onward hwaits a.now with ⟨i, timer, htake⟩ | ⟨hsleeps, timer, hexpire⟩ |
    ⟨duration, hcomes⟩
  · obtain ⟨env, hgood, hprompt⟩ := hreturning.possible
    refine ⟨.timer i env, h.onTimer w.handler env { a with timer }, hprompt a i ha.chained, ?_, ?_⟩
    · rw [Event.fails, hgood]
      rfl
    · rw [Handlers.step, if_neg hrunning, htake]
      rfl
  · exact ⟨.expire, { a with timer }, hsleeps, rfl, by
      rw [Handlers.step, if_neg hrunning, hexpire]
      rfl⟩
  · exact ⟨.tick duration, { a with now := a.now + duration }, hcomes, rfl, by
      rw [Handlers.step, if_neg hrunning]⟩

theorem ready_windsDown (hreturning : h.Returning needsClosed callsOpen right throws good) :
    WindsDown (rationed h.step (Event.fails good))
      (fun s e => s.1.Prompt callsOpen right throws e)
      (fun s => Ready needsClosed t k s.1 s.2)
      (fun s => 0 < s.1.accepting ∧ s.1.acceptor.isListening = true ∧
        s.1.now ≤ t + seconds (10 * (k + 1)))
      (fun s => distance s.1 s.2) where
  keeps s e s' hs hprompt hstep :=
    (step_ready hreturning hs hprompt (rationed_cases hstep).1 (rationed_cases hstep).2).1
  lowers s e s' hs hprompt hstep :=
    (step_ready hreturning hs hprompt (rationed_cases hstep).1 (rationed_cases hstep).2).2
  goesOn s hs hnot := by
    have hwaits : s.1.accepting = 0 := by
      refine Nat.eq_zero_of_not_pos fun hpos => hnot ⟨hpos, hs.listening.accepting hpos, ?_⟩
      exact Int.le_trans hs.now (limit_le t k s.2)
    obtain ⟨e, a', hprompt, hfails, hstep⟩ := ready_goesOn hreturning hs hwaits
    refine ⟨e, (a', s.2), hprompt, ?_⟩
    rw [rationed, hfails, hstep]
    rfl

end AcceptorLemmas

open AcceptorLemmas

theorem Handlers.Returning.comesBack {needsClosed : η → Bool} {h : Handlers η E}
    {callsOpen : Acceptor η → Event E → Option E} {right : E → Bool}
    {throws : Acceptor η → Event E → Bool} {good : E → Bool}
    (hreturning : h.Returning needsClosed callsOpen right throws good) (now : Int) :
    h.ComesBack callsOpen right throws good now := by
  intro es a k hright hrun hstarted hcrashed
  have hkept : a.Chained needsClosed ∧ a.Listening needsClosed ∧
      (a.timer.waits ≠ [] → a.timer.expiry ≤ a.now + seconds 10) := by
    refine run_invariant_of (I := fun a => a.Chained needsClosed ∧ a.Listening needsClosed ∧
      (a.timer.waits ≠ [] → a.timer.expiry ≤ a.now + seconds 10)) ?_
      ⟨init_chained needsClosed now, init_listening needsClosed now, fun hmore => absurd rfl hmore⟩
      hright hrun
    intro a e a' ha hall hstep
    refine ⟨hreturning.lawful.step_chained ha.1 hstep,
      hreturning.listening a e a' ha.1 ha.2.1 (fun env hcalls => ?_) hstep,
      step_soon hreturning.timely ha.1 ha.2.2 hstep⟩
    rwa [hcalls] at hall
  have hready : Ready needsClosed a.now k a k := by
    have hlimit : limit a.now k k = a.now + seconds 10 := by
      unfold limit seconds
      omega
    refine ⟨hkept.1, hkept.2.1, hstarted, hcrashed, ?_, ?_⟩
    · rw [hlimit]
      exact Int.le_add_of_nonneg_right (by decide)
    · rw [hlimit]
      exact hkept.2.2
  have hends := (ready_windsDown (k := k) hreturning).endsWithin (s := (a, k)) hready
  refine hends.mono ?_
  have haway := a.timer.away_le a.now
  show a.timer.away a.now + 3 * k ≤ 3 * (k + 1)
  omega

end Acceptor

end Ian.Common
