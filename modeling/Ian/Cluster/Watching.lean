import Ian.Cluster.Acceptor
import Ian.Cluster.Closing

/-!
# A watched link

A watcher together with the connections it makes. A connection is destroyed when
the handler of its last operation has run; the watcher learns of that through its
weak pointer only, when its timer expires.

Main results:
  * `watched_alone`: never do two of the connections have anything outstanding.
  * `watched_link_restored`: when the link has been lost, the watcher connects
    again within 30 s.
-/

namespace Ian.Cluster

open Ian.Lib Ian.Common

/-- A watcher and the connections it has made. -/
structure WatchedLink where
  watcher : ClusterWatcher
  connections : List Connection
deriving DecidableEq, Repr

namespace WatchedLink

inductive Event where
  | watcher (e : ClusterWatcher.Event)
  | connection (i : Nat) (e : Connection.Event)

def init (now : Int) : WatchedLink := ⟨ClusterWatcher.init now, []⟩

/-- The process has ended: a call in `on_connect` has thrown, or a connection
has dereferenced a null message. -/
def crashed (l : WatchedLink) : Bool := l.watcher.crashed || l.connections.any (·.fault)

/-- A handler of the watcher runs the connection it makes; the handlers of a
connection keep it alive as long as they leave an operation behind. Nothing
happens any more once the process has ended. -/
def step (handshake : Message) (safeLink : Bool) (l : WatchedLink) (e : Event) :
    Option WatchedLink :=
  if l.crashed then none
  else
    match e with
    | .watcher (.destroy _) => none
    | .watcher e =>
      (l.watcher.step e).map fun watcher =>
        { watcher
          connections :=
            if l.watcher.made < watcher.made then l.connections ++ [Connection.init.run safeLink]
            else l.connections }
    | .connection i e =>
      if !l.watcher.live.contains i then none
      else
        l.connections[i]?.bind fun c =>
          (c.step handshake e).map fun c =>
            { watcher :=
                if c.pending.isEmpty then { l.watcher with live := l.watcher.live.erase i }
                else l.watcher
              connections := l.connections.set i c }

/-- What holds throughout a run: the connections that are alive are those that
have something outstanding, and the timer expires within 30 s. -/
structure Tied (handshake : Message) (l : WatchedLink) : Prop where
  single : ClusterWatcherLemmas.Single l.watcher
  made : l.connections.length = l.watcher.made
  sound : ∀ c ∈ l.connections, Connection.Sound handshake c
  live : ∀ i c, l.connections[i]? = some c → (i ∈ l.watcher.live ↔ c.pending ≠ [])
  known : ∀ i ∈ l.watcher.live, i < l.watcher.made
  timely : l.watcher.timer.waits ≠ [] → l.watcher.timer.expiry ≤ l.watcher.now + seconds 30

/-- The operation of a connection ends with success. -/
def Event.succeeds : Event → Bool
  | .watcher _ => false
  | .connection _ e => e.succeeds

/-- Nothing happens but that handlers run; nobody sends and no connect completes.
Time goes on only when no handler can be run, and then to the expiry of the timer. -/
def Prompt (l : WatchedLink) : Event → Prop
  | .connection _ e => e.isSend = false
  | .watcher (.timer _) => True
  | .watcher .expire => l.watcher.timer.Sleeps
  | .watcher (.tick duration) =>
    l.watcher.live = [] ∧ l.watcher.timer.Comes l.watcher.now duration
  | .watcher _ => False

/-- The operations that are outstanding. -/
def outstanding (l : WatchedLink) : Nat := (l.connections.map fun c => c.pending.length).sum

namespace WatchedLinkLemmas

variable {handshake : Message} {safeLink : Bool} {l l' : WatchedLink} {w w' : ClusterWatcher}

/-! ## Steps -/

theorem step_watcher {e : ClusterWatcher.Event} (hcrashed : l.crashed = false)
    (hdestroy : ∀ i, e ≠ .destroy i) :
    step handshake safeLink l (.watcher e) = (l.watcher.step e).map fun watcher =>
      { watcher
        connections :=
          if l.watcher.made < watcher.made then l.connections ++ [Connection.init.run safeLink]
          else l.connections } := by
  unfold step
  rw [if_neg (by rw [hcrashed]; exact Bool.false_ne_true)]
  cases e with
  | destroy i => exact absurd rfl (hdestroy i)
  | _ => rfl

theorem watcher_running (h : l.crashed = false) : l.watcher.crashed = false :=
  (Bool.or_eq_false_iff.mp h).1

theorem crashed_eq_false (h : l.watcher.crashed = false)
    (hfault : ∀ c ∈ l.connections, c.fault = false) : l.crashed = false := by
  simpa [crashed, h] using hfault

/-- What a step of the watched link is. -/
inductive StepCases (handshake : Message) (safeLink : Bool) (l : WatchedLink) :
    Event → WatchedLink → Prop where
  | watcher (e : ClusterWatcher.Event) (w' : ClusterWatcher)
    (hdestroy : ∀ i, e ≠ .destroy i) (hstep : l.watcher.step e = some w') :
    StepCases handshake safeLink l (.watcher e)
      ⟨w', if l.watcher.made < w'.made then l.connections ++ [Connection.init.run safeLink]
        else l.connections⟩
  | connection (i : Nat) (e : Connection.Event) (c c' : Connection)
    (hcrashed : l.crashed = false) (hlive : i ∈ l.watcher.live)
    (hc : l.connections[i]? = some c) (hstep : c.step handshake e = some c') :
    StepCases handshake safeLink l (.connection i e)
      ⟨if c'.pending.isEmpty then { l.watcher with live := l.watcher.live.erase i } else l.watcher,
        l.connections.set i c'⟩

theorem step_cases {e : Event} (h : step handshake safeLink l e = some l') :
    StepCases handshake safeLink l e l' := by
  have hcrashed : l.crashed = false := by
    by_contra hcrashed
    unfold step at h
    rw [if_pos (Bool.not_eq_false _ |>.mp hcrashed)] at h
    cases h
  cases e with
  | watcher e =>
    have hwatcher : (∀ i, e ≠ .destroy i) → step handshake safeLink l (.watcher e) = some l' →
        StepCases handshake safeLink l (.watcher e) l' := by
      intro hdestroy h
      rw [step_watcher hcrashed hdestroy] at h
      obtain ⟨w', hstep, rfl⟩ := Option.map_eq_some_iff.mp h
      exact .watcher e w' hdestroy hstep
    cases e with
    | destroy i =>
      unfold step at h
      split at h
      · cases h
      · cases h
    | _ => exact hwatcher (fun i => ClusterWatcher.Event.noConfusion) h
  | connection i e =>
    unfold step at h
    rw [if_neg (by rw [hcrashed]; exact Bool.false_ne_true)] at h
    dsimp only at h
    split at h
    · cases h
    next hlive =>
    obtain ⟨c, hc, h⟩ := Option.bind_eq_some_iff.mp h
    obtain ⟨c', hstep, rfl⟩ := Option.map_eq_some_iff.mp h
    exact .connection i e c c' hcrashed (by simpa using hlive) hc hstep

/-- What a handler of the watcher does to the connections. -/
theorem watcher_makes (h : w.Chained) {e : ClusterWatcher.Event} (hdestroy : ∀ i, e ≠ .destroy i)
    (hstep : w.step e = some w') : w'.made = w.made ∧ w'.live = w.live ∨
      w'.made = w.made + 1 ∧ w'.live = w.live ++ [w.made] := by
  obtain ⟨-, hcases⟩ := ClusterWatcherLemmas.step_cases h hstep
  cases hcases with
  | run _ _ _ => exact Or.inl ⟨rfl, rfl⟩
  | connected ok remoteEndpoint _ _ _ _ =>
    unfold ClusterWatcher.onConnect
    split
    · split
      · exact Or.inl ⟨rfl, rfl⟩
      · exact Or.inr ⟨rfl, rfl⟩
    · exact Or.inl ⟨rfl, rfl⟩
  | timer i wt timer _ _ _ _ =>
    unfold ClusterWatcher.onTimer
    split
    · exact Or.inl ⟨rfl, rfl⟩
    split
    · exact Or.inl ⟨rfl, rfl⟩
    · exact Or.inl ⟨rfl, rfl⟩
  | destroy i => exact absurd rfl (hdestroy i)
  | tick duration => exact Or.inl ⟨rfl, rfl⟩
  | expire timer _ => exact Or.inl ⟨rfl, rfl⟩

/-- The watcher never waits for longer than 30 s. -/
def Timely (w : ClusterWatcher) : Prop :=
  w.timer.waits ≠ [] → w.timer.expiry ≤ w.now + seconds 30

theorem wait_timely (w : ClusterWatcher) : Timely (w.wait (seconds 30)) := fun _ => Int.le_refl _

theorem watcher_timely (h : w.Chained) (htimely : Timely w) {e : ClusterWatcher.Event}
    (hstep : w.step e = some w') : Timely w' := by
  obtain ⟨-, hcases⟩ := ClusterWatcherLemmas.step_cases h hstep
  cases hcases with
  | run _ _ hwaits => exact fun hmore => absurd hwaits hmore
  | connected ok remoteEndpoint _ _ _ hwaits =>
    unfold ClusterWatcher.onConnect
    split
    · split
      · exact fun hmore => absurd hwaits hmore
      · exact wait_timely _
    · exact wait_timely _
  | timer i wt timer _ _ _ hwaits =>
    unfold ClusterWatcher.onTimer
    split
    · exact fun hmore => absurd hwaits hmore
    split
    · exact fun hmore => absurd hwaits hmore
    · exact wait_timely _
  | destroy i => exact htimely
  | tick duration =>
    intro hmore
    have hsoon := htimely hmore
    show w.timer.expiry ≤ w.now + duration + seconds 30
    omega
  | expire timer hexpire =>
    intro hmore
    unfold Timer.expire at hexpire
    split at hexpire
    · cases hexpire
      exact htimely fun hwaits => hmore (by show w.timer.waits.map _ = []; rw [hwaits]; rfl)
    · cases hexpire

/-! ## The connections that are alive -/

theorem live_eq (h : ClusterWatcherLemmas.Known w) {i : Nat} (hi : i ∈ w.live) : w.live = [i] := by
  obtain hnone | ⟨j, -, hlive⟩ := h
  · rw [hnone] at hi
    cases hi
  · rw [hlive] at hi ⊢
    rw [List.mem_singleton.mp hi]

theorem init_tied (handshake : Message) (now : Int) : Tied handshake (init now) where
  single := ClusterWatcherLemmas.init_single now
  made := rfl
  sound := fun c hc => absurd hc List.not_mem_nil
  live := fun i c hc => by cases hc
  known := fun i hi => absurd hi List.not_mem_nil
  timely := fun hmore => absurd rfl hmore

/-- The watcher makes a connection, or none. -/
theorem watcher_tied (safeLink : Bool) (h : Tied handshake l) {e : ClusterWatcher.Event}
    (hdestroy : ∀ i, e ≠ .destroy i) (hstep : l.watcher.step e = some w') :
    Tied handshake ⟨w', if l.watcher.made < w'.made
      then l.connections ++ [Connection.init.run safeLink] else l.connections⟩ := by
  have hsingle := ClusterWatcherLemmas.step_single h.single hstep
  have htimely := watcher_timely h.single.chained h.timely hstep
  rcases watcher_makes h.single.chained hdestroy hstep with ⟨hmade, hlive⟩ | ⟨hmade, hlive⟩
  · rw [if_neg (by rw [hmade]; exact Nat.lt_irrefl _)]
    refine ⟨hsingle, h.made.trans hmade.symm, h.sound, ?_, ?_, htimely⟩
    · rw [hlive]
      exact h.live
    · rw [hlive, hmade]
      exact h.known
  · rw [if_pos (by rw [hmade]; exact Nat.lt_succ_self _)]
    refine ⟨hsingle, ?_, ?_, fun i c hc => ?_, fun i hi => ?_, htimely⟩
    · rw [List.length_append, h.made, hmade]
      rfl
    · intro c hc
      rcases List.mem_append.mp hc with hc | hc
      · exact h.sound c hc
      · rw [List.mem_singleton.mp hc]
        exact Connection.ClosingLemmas.run_sound handshake safeLink
    · rw [hlive]
      rcases Nat.lt_trichotomy i l.connections.length with hlt | heq | hgt
      · have hold : l.connections[i]? = some c := (List.getElem?_append_left hlt).symm.trans hc
        have hne : i ≠ l.watcher.made := by
          rw [← h.made]
          exact Nat.ne_of_lt hlt
        rw [List.mem_append, List.mem_singleton, or_iff_left hne]
        exact h.live i c hold
      · have hnew : c = Connection.init.run safeLink := by
          have hlast := (List.getElem?_append_right (Nat.le_of_eq heq.symm)).symm.trans hc
          rw [heq, Nat.sub_self] at hlast
          exact (Option.some.inj hlast).symm
        rw [hnew, heq, h.made]
        exact iff_of_true (List.mem_append_right _ List.mem_cons_self) (List.cons_ne_nil _ _)
      · have hlen : i < (l.connections ++ [Connection.init.run safeLink]).length :=
          (List.getElem?_eq_some_iff.mp hc).1
        rw [List.length_append] at hlen
        exact absurd hlen (Nat.not_lt.mpr hgt)
    · rw [hmade]
      rw [hlive] at hi
      rcases List.mem_append.mp hi with hi | hi
      · exact Nat.lt_succ_of_lt (h.known i hi)
      · rw [List.mem_singleton.mp hi]
        exact Nat.lt_succ_self _

/-- A handler of the connection that is alive. -/
theorem connection_tied (h : Tied handshake l) {i : Nat}
    {e : Connection.Event} {c c' : Connection} (hcrashed : l.watcher.crashed = false)
    (hlive : i ∈ l.watcher.live) (hc : l.connections[i]? = some c)
    (hstep : c.step handshake e = some c') :
    Tied handshake ⟨if c'.pending.isEmpty then { l.watcher with live := l.watcher.live.erase i }
      else l.watcher, l.connections.set i c'⟩ := by
  have honly := live_eq h.single.known hlive
  have hsound : ∀ d ∈ l.connections.set i c', Connection.Sound handshake d := by
    intro d hd
    rcases List.mem_or_eq_of_mem_set hd with hd | rfl
    · exact h.sound d hd
    · exact Connection.ClosingLemmas.step_sound (h.sound c (List.mem_of_getElem? hc)) hstep
  have hmade : (l.connections.set i c').length = l.watcher.made :=
    (List.length_set).trans h.made
  have hothers : ∀ j d, j ≠ i → (l.connections.set i c')[j]? = some d → d.pending = [] := by
    intro j d hne hd
    rw [List.getElem?_set_ne (Ne.symm hne)] at hd
    by_contra hpending
    have hj := (h.live j d hd).mpr hpending
    rw [honly] at hj
    exact hne (List.mem_singleton.mp hj)
  have hhere : ∀ d, (l.connections.set i c')[i]? = some d → d = c' := by
    intro d hd
    rw [List.getElem?_set_self (List.getElem?_eq_some_iff.mp hc).1] at hd
    exact (Option.some.inj hd).symm
  by_cases hpending : c'.pending = []
  · rw [if_pos (by rw [hpending]; rfl)]
    have hnone : l.watcher.live.erase i = [] := by
      rw [honly, List.erase_cons_head]
    have hdestroy : l.watcher.step (.destroy i) =
        some { l.watcher with live := l.watcher.live.erase i } := by
      rw [ClusterWatcher.step, if_neg (by rw [hcrashed]; exact Bool.false_ne_true)]
    refine ⟨ClusterWatcherLemmas.step_single h.single hdestroy, hmade, hsound, fun j d hd => ?_,
      fun j hj => ?_, h.timely⟩
    · show j ∈ l.watcher.live.erase i ↔ _
      rw [hnone]
      refine iff_of_false List.not_mem_nil fun hmore => hmore ?_
      by_cases hne : j = i
      · rw [hhere d (hne ▸ hd), hpending]
      · exact hothers j d hne hd
    · have hj' : j ∈ l.watcher.live.erase i := hj
      rw [hnone] at hj'
      cases hj'
  · rw [if_neg (by rw [List.isEmpty_iff]; exact hpending)]
    refine ⟨h.single, hmade, hsound, fun j d hd => ?_, h.known, h.timely⟩
    by_cases hne : j = i
    · rw [hhere d (hne ▸ hd), hne]
      exact iff_of_true hlive hpending
    · rw [honly]
      exact iff_of_false (fun hj => hne (List.mem_singleton.mp hj))
        fun hmore => hmore (hothers j d hne hd)

theorem step_tied (h : Tied handshake l) {e : Event}
    (hstep : step handshake safeLink l e = some l') : Tied handshake l' := by
  cases step_cases hstep with
  | watcher e w' hdestroy hwatcher => exact watcher_tied safeLink h hdestroy hwatcher
  | connection i e c c' hcrashed hlive hc hconnection =>
    exact connection_tied h (watcher_running hcrashed) hlive hc hconnection

theorem run_tied {now : Int} {es : List Event}
    (h : runEvents (step handshake safeLink) (init now) es = some l) : Tied handshake l :=
  run_invariant (fun _ _ _ htied hstep => step_tied htied hstep) (init_tied handshake now) h

/-! ## Coming back -/

/-- How many steps the watcher is away from connecting: when the handler of its
timer finds a connection that is alive, it waits once more. It does not when the
time has still to come, for then the connection comes to its end first. -/
def ahead (w : ClusterWatcher) : Nat :=
  w.timer.away w.now + if w.live.isEmpty ∨ w.timer.away w.now = 3 then 0 else 3

/-- The link has been lost at time `t`, or is being lost, and the watcher has not
connected again before, or it has within 30 s. -/
structure Lost (handshake : Message) (t : Int) (l : WatchedLink) : Prop where
  tied : Tied handshake l
  started : l.watcher.started = true
  crashed : l.crashed = false
  down : ∀ c ∈ l.connections, c.pending ≠ [] → c.dropped = true
  now : l.watcher.now ≤ t + seconds 30
  soon : l.watcher.timer.waits ≠ [] → l.watcher.timer.expiry ≤ t + seconds 30
  here : l.watcher.live ≠ [] → l.watcher.now = t

/-- A watcher that does not connect waits for its timer. -/
theorem lost_waits {t : Int} (h : Lost handshake t l) : 0 < l.watcher.connecting ∧
    l.watcher.timer.waits = [] ∨ ∃ wt, l.watcher.connecting = 0 ∧ l.watcher.timer.waits = [wt] ∧
      wt.state ≠ .aborted := by
  have hone := h.tied.single.chained.one h.started (watcher_running h.crashed)
  unfold ClusterWatcher.continuations at hone
  obtain ⟨timer, hwaits⟩ : ∃ waits, l.watcher.timer.waits = waits := ⟨_, rfl⟩
  cases timer with
  | nil =>
    rw [hwaits] at hone
    exact Or.inl ⟨Nat.lt_of_lt_of_eq Nat.zero_lt_one hone.symm, hwaits⟩
  | cons wt more =>
    rw [hwaits, List.length_cons] at hone
    have hmore : more = [] := List.length_eq_zero_iff.mp (by omega)
    refine Or.inr ⟨wt, by omega, hmore ▸ hwaits, ?_⟩
    exact h.tied.single.chained.kept wt (by rw [hwaits]; exact List.mem_cons_self)

/-- Without a connection the watcher is not farther from connecting. -/
theorem ahead_erase (w : ClusterWatcher) : ahead { w with live := [] } ≤ ahead w :=
  Nat.add_le_add_left (by simp) _

theorem ahead_of_far (h : w.timer.away w.now = 3) : ahead w = 3 := by
  simp [ahead, h]

/-- Coming nearer to the handler of the timer, the watcher comes nearer to
connecting, unless only now the connection is in its way. -/
theorem ahead_lt (hlive : w'.live = w.live) (hnear : w.timer.away w.now ≠ 3 ∨ w.live = [])
    (hless : w'.timer.away w'.now < w.timer.away w.now) : ahead w' < ahead w := by
  have hle := w.timer.away_le w.now
  have hthen : w'.timer.away w'.now ≠ 3 := Nat.ne_of_lt (Nat.lt_of_lt_of_le hless hle)
  unfold ahead
  by_cases hnone : w.live = []
  · simpa [hlive, hnone] using hless
  · have hbefore := hnear.resolve_right hnone
    simpa [hlive, hnone, hbefore, hthen] using hless

/-- A handler of the connection runs. -/
theorem connection_lost {t : Int} (h : Lost handshake t l) {i : Nat} {e : Connection.Event}
    {c c' : Connection} (hlive : i ∈ l.watcher.live)
    (hc : l.connections[i]? = some c) (hsend : e.isSend = false)
    (hstep : c.step handshake e = some c') :
    Lost handshake t ⟨if c'.pending.isEmpty then { l.watcher with live := l.watcher.live.erase i }
      else l.watcher, l.connections.set i c'⟩ ∧
    outstanding ⟨if c'.pending.isEmpty then { l.watcher with live := l.watcher.live.erase i }
      else l.watcher, l.connections.set i c'⟩ + 1 ≤ outstanding l + e.succeeds.toNat := by
  have hmem := List.mem_of_getElem? hc
  have hpending := (h.tied.live i c hc).mp hlive
  have hclosed : Connection.Closed handshake c := ⟨h.tied.sound c hmem, h.down c hmem hpending⟩
  have hthen := Connection.ClosingLemmas.step_closed hclosed hstep
  have hassigned := Connection.ClosingLemmas.assigned_of_closed hclosed hpending
  have hlength := Connection.ClosingLemmas.step_length hclosed hsend hstep
  constructor
  · have hrunning := watcher_running h.crashed
    have htied := connection_tied h.tied hrunning hlive hc hstep
    have hfaults : ∀ d ∈ l.connections.set i c', d.fault = false :=
      fun d hd => (htied.sound d hd).assigned hassigned
    have hdown : ∀ d ∈ l.connections.set i c', d.pending ≠ [] → d.dropped = true := by
      intro d hd hpending
      rcases List.mem_or_eq_of_mem_set hd with hd | rfl
      · exact h.down d hd hpending
      · exact hthen.dropped
    split
    · next hempty =>
      rw [if_pos hempty] at htied
      refine ⟨htied, h.started, crashed_eq_false hrunning hfaults, hdown, h.now, h.soon,
        fun hmore => ?_⟩
      exact h.here fun hnone => hmore (by show l.watcher.live.erase i = []; rw [hnone]; rfl)
    · next hempty =>
      rw [if_neg hempty] at htied
      exact ⟨htied, h.started, crashed_eq_false hrunning hfaults, hdown, h.now, h.soon, h.here⟩
  · have hsum := sum_map_set hc (fun c => c.pending.length) c'
    unfold outstanding
    dsimp only
    omega

/-- What a prompt step of the watcher leaves. -/
structure Comes (t : Int) (w w' : ClusterWatcher) : Prop where
  made : w'.made = w.made
  started : w'.started = true
  now : w'.now ≤ t + seconds 30
  soon : w'.timer.waits ≠ [] → w'.timer.expiry ≤ t + seconds 30
  here : w'.live ≠ [] → w'.now = t
  ahead : ahead w' < ahead w

/-- The handler of the timer. -/
theorem onTimer_comes {t : Int} (h : Lost handshake t l) {wt : Wait Unit} {timer : Timer Unit}
    (haway : l.watcher.timer.away l.watcher.now = 1) (hkept : wt.state ≠ .aborted)
    (htimer : timer.waits = []) :
    Comes t l.watcher ({ l.watcher with timer }.onTimer wt.state) := by
  unfold ClusterWatcher.onTimer
  rw [if_neg hkept]
  split
  · next hexpired =>
    -- No connection is alive.
    have hnone : l.watcher.live = [] :=
      ClusterWatcherLemmas.live_of_expired (w := { l.watcher with timer }) h.tied.single.known
        hexpired
    refine ⟨rfl, h.started, h.now, fun hmore => absurd htimer hmore, h.here, ?_⟩
    refine ahead_lt rfl (Or.inr hnone) ?_
    rw [haway]
    show timer.away l.watcher.now < 1
    rw [Timer.away_of_none htimer]
    exact Nat.zero_lt_one
  · next hexpired =>
    -- The connection is alive, and the watcher waits once more.
    have halive : l.watcher.live ≠ [] := by
      intro hnone
      apply hexpired
      unfold ClusterWatcher.expired
      dsimp only
      rw [hnone]
      split <;> rfl
    refine ⟨rfl, h.started, h.now, fun _ => ?_, h.here, ?_⟩
    · show l.watcher.now + seconds 30 ≤ t + seconds 30
      rw [h.here halive]
    · have hthen : ({ l.watcher with timer }.wait (seconds 30)).timer.away l.watcher.now = 3 :=
        Timer.asyncWait_away htimer (by decide)
      have hbefore : ahead l.watcher = 4 := by
        simp [ahead, haway, halive]
      have hafter : ahead ({ l.watcher with timer }.wait (seconds 30)) = 3 := ahead_of_far hthen
      exact lt_of_eq_of_lt hafter (by rw [hbefore]; decide)

/-- The watcher's timer, or time. -/
theorem watcher_comes {t : Int} (h : Lost handshake t l) {e : ClusterWatcher.Event}
    (hprompt : Prompt l (.watcher e)) (hstep : l.watcher.step e = some w') :
    Comes t l.watcher w' := by
  -- A watcher whose timer is not waited for takes no prompt step.
  have hwait : ∀ {wt}, wt ∈ l.watcher.timer.waits →
      ∃ wt, l.watcher.timer.waits = [wt] ∧ wt.state ≠ .aborted := by
    intro wt hmem
    rcases lost_waits h with ⟨-, hnone⟩ | ⟨wt, -, hwaits, hkept⟩
    · rw [hnone] at hmem
      cases hmem
    · exact ⟨wt, hwaits, hkept⟩
  unfold ClusterWatcher.step at hstep
  rw [if_neg (by rw [watcher_running h.crashed]; exact Bool.false_ne_true)] at hstep
  cases e with
  | run => exact absurd hprompt id
  | connected ok remoteEndpoint => exact absurd hprompt id
  | destroy i => exact absurd hprompt id
  | timer i =>
    obtain ⟨⟨wt', timer⟩, htake, rfl⟩ := Option.map_eq_some_iff.mp hstep
    obtain ⟨wt, hwaits, hkept⟩ := hwait (Timer.take_spec htake).1
    obtain ⟨hsame, hnone, haway⟩ := Timer.take_one l.watcher.now hwaits htake
    exact onTimer_comes h haway (hsame ▸ hkept) hnone
  | tick duration =>
    cases hstep
    obtain ⟨hnone, hcomes⟩ := hprompt
    obtain ⟨⟨wt', hmem, -⟩, -, hthere⟩ := id hcomes
    obtain ⟨wt, hwaits, -⟩ := hwait hmem
    refine ⟨rfl, h.started, ?_, h.soon, fun hmore => absurd hnone hmore, ?_⟩
    · show l.watcher.now + duration ≤ t + seconds 30
      rw [hthere]
      exact h.soon (List.ne_nil_of_mem hmem)
    · exact ahead_lt rfl (Or.inr hnone) (Timer.comes_away hwaits hcomes)
  | expire =>
    obtain ⟨timer, hexpire, rfl⟩ := Option.map_eq_some_iff.mp hstep
    obtain ⟨wt', hmem, -⟩ := id hprompt
    obtain ⟨wt, hwaits, -⟩ := hwait hmem
    refine ⟨rfl, h.started, h.now, fun _ => ?_, h.here, ?_⟩
    · show timer.expiry ≤ t + seconds 30
      rw [(Timer.expire_due hexpire).1]
      exact h.soon (List.ne_nil_of_mem hmem)
    · refine ahead_lt rfl (Or.inl ?_) (Timer.expire_away hwaits hprompt hexpire)
      rw [Timer.away_of_one hwaits, if_neg (Int.not_lt.mpr (Timer.expire_due hexpire).2)]
      split <;> decide

/-- The watcher does what it has to. -/
theorem watcher_lost {t : Int} (h : Lost handshake t l) {e : ClusterWatcher.Event}
    (hdestroy : ∀ i, e ≠ .destroy i) (hprompt : Prompt l (.watcher e))
    (hstep : l.watcher.step e = some w') :
    Lost handshake t ⟨w', if l.watcher.made < w'.made
      then l.connections ++ [Connection.init.run safeLink] else l.connections⟩ := by
  have hcomes := watcher_comes h hprompt hstep
  have htied := watcher_tied safeLink h.tied hdestroy hstep
  have hcrashed : w'.crashed = false := by
    rw [(ClusterWatcherLemmas.step_chained h.tied.single.chained hstep).2.1]
    cases e with
    | connected ok remoteEndpoint => exact absurd hprompt id
    | _ => rfl
  have hfaults : l.connections.any (·.fault) = false := (Bool.or_eq_false_iff.mp h.crashed).2
  rw [if_neg (by rw [hcomes.made]; exact Nat.lt_irrefl _)] at htied ⊢
  exact ⟨htied, hcomes.started, Bool.or_eq_false_iff.mpr ⟨hcrashed, hfaults⟩, h.down, hcomes.now,
    hcomes.soon, hcomes.here⟩

/-- The handlers that are still to run, and the watcher's way. -/
def distance (l : WatchedLink) : Nat := outstanding l + ahead l.watcher

theorem step_lost {t : Int} (h : Lost handshake t l) {e : Event}
    (hprompt : Prompt l e) (hstep : step handshake safeLink l e = some l') :
    Lost handshake t l' ∧ distance l' + 1 ≤ distance l + 1 * e.succeeds.toNat := by
  rw [Nat.one_mul]
  cases step_cases hstep with
  | watcher e w' hdestroy hwatcher =>
    have hcomes := watcher_comes h hprompt hwatcher
    refine ⟨watcher_lost h hdestroy hprompt hwatcher, ?_⟩
    rw [if_neg (by rw [hcomes.made]; exact Nat.lt_irrefl _)]
    exact Nat.add_lt_add_left hcomes.ahead _
  | connection i e c c' hcrashed hlive hc hconnection =>
    obtain ⟨hlost, hless⟩ := connection_lost h hlive hc hprompt hconnection
    refine ⟨hlost, ?_⟩
    have hahead : ahead (if c'.pending.isEmpty then
        { l.watcher with live := l.watcher.live.erase i } else l.watcher) ≤ ahead l.watcher := by
      split
      · rw [live_eq h.tied.single.known hlive, List.erase_cons_head]
        exact ahead_erase l.watcher
      · exact Nat.le_refl _
    have hsum := Nat.add_le_add hless hahead
    rwa [Nat.add_right_comm, Nat.add_right_comm (outstanding l)] at hsum

/-- Until the watcher connects there is a handler to run, or a time to come. -/
theorem lost_goesOn {t : Int} (safeLink : Bool) (h : Lost handshake t l)
    (hnot : l.watcher.connecting = 0) :
    ∃ e l', Prompt l e ∧ e.succeeds = false ∧ step handshake safeLink l e = some l' := by
  have hstep : ∀ {e w}, (∀ i, e ≠ .destroy i) → l.watcher.step e = some w →
      ∃ l', step handshake safeLink l (.watcher e) = some l' := by
    intro e w hdestroy hwatcher
    rw [step_watcher h.crashed hdestroy, hwatcher]
    exact ⟨_, rfl⟩
  have hrunning : ¬l.watcher.crashed = true := by
    rw [watcher_running h.crashed]
    exact Bool.false_ne_true
  by_cases halive : l.watcher.live = []
  · rcases lost_waits h with ⟨hpos, -⟩ | ⟨wt, -, hwaits, hkept⟩
    · exact absurd hnot (Nat.pos_iff_ne_zero.mp hpos)
    rcases Timer.onward hwaits l.watcher.now with ⟨i, timer, htake⟩ | ⟨hsleeps, timer, hexpire⟩ |
      ⟨duration, hcomes⟩
    · obtain ⟨l', hl'⟩ := hstep (e := .timer i) (fun i => ClusterWatcher.Event.noConfusion) (by
        rw [ClusterWatcher.step, if_neg hrunning, htake]
        rfl)
      exact ⟨.watcher (.timer i), l', trivial, rfl, hl'⟩
    · obtain ⟨l', hl'⟩ := hstep (e := .expire) (fun i => ClusterWatcher.Event.noConfusion) (by
        rw [ClusterWatcher.step, if_neg hrunning, hexpire]
        rfl)
      exact ⟨.watcher .expire, l', hsleeps, rfl, hl'⟩
    · obtain ⟨l', hl'⟩ := hstep (e := .tick duration) (fun i => ClusterWatcher.Event.noConfusion)
        (by rw [ClusterWatcher.step, if_neg hrunning])
      exact ⟨.watcher (.tick duration), l', ⟨halive, hcomes⟩, rfl, hl'⟩
  · -- An operation of the connection can end.
    obtain ⟨i, live, hlive⟩ := List.exists_cons_of_ne_nil halive
    have hi : i ∈ l.watcher.live := hlive ▸ List.mem_cons_self
    obtain ⟨c, hc⟩ : ∃ c, l.connections[i]? = some c := by
      rw [List.getElem?_eq_getElem (by rw [h.tied.made]; exact h.tied.known i hi)]
      exact ⟨_, rfl⟩
    have hpending := (h.tied.live i c hc).mp hi
    have hmem := List.mem_of_getElem? hc
    obtain ⟨op, ops, hops⟩ := List.exists_cons_of_ne_nil hpending
    obtain ⟨c', hfails⟩ := Connection.ClosingLemmas.fails_step (h.tied.sound c hmem)
      (hops ▸ List.mem_cons_self) .canceled
    obtain ⟨l', hl'⟩ : ∃ l', step handshake safeLink l (.connection i (op.fails .canceled)) =
        some l' := by
      unfold step
      rw [if_neg (by rw [h.crashed]; exact Bool.false_ne_true)]
      dsimp only
      rw [if_neg (by simpa using hi), hc, Option.bind_some, hfails]
      exact ⟨_, rfl⟩
    refine ⟨.connection i (op.fails .canceled), l', ?_, ?_, hl'⟩
    · cases op <;> rfl
    · cases op <;> rfl

/-- A link that has been lost, at the time it is noticed. -/
theorem tied_lost (h : Tied handshake l) (hstarted : l.watcher.started = true)
    (hcrashed : l.crashed = false)
    (hdown : ∀ c ∈ l.connections, c.pending ≠ [] → c.dropped = true) :
    Lost handshake l.watcher.now l where
  tied := h
  started := hstarted
  crashed := hcrashed
  down := hdown
  now := Int.le_add_of_nonneg_right (by decide)
  soon := h.timely
  here _ := rfl

theorem ahead_le (w : ClusterWatcher) : ahead w ≤ 5 := by
  have haway := w.timer.away_le w.now
  unfold ahead
  split_ifs <;> omega

theorem lost_windsDown {t : Int} (handshake : Message) (safeLink : Bool) :
    WindsDown (rationed (step handshake safeLink) Event.succeeds) (fun s e => Prompt s.1 e)
      (fun s => Lost handshake t s.1)
      (fun s => 0 < s.1.watcher.connecting ∧ s.1.watcher.now ≤ t + seconds 30)
      (fun s : WatchedLink × Nat => distance s.1 + 1 * s.2) := by
  have hkeeps : ∀ (l : WatchedLink) (e : Event) (l' : WatchedLink), Lost handshake t l →
      Prompt l e → step handshake safeLink l e = some l' →
        Lost handshake t l' ∧ distance l' + 1 ≤ distance l + 1 * e.succeeds.toNat :=
    fun l e l' h hprompt hstep => step_lost h hprompt hstep
  have hgoesOn : ∀ l : WatchedLink, Lost handshake t l →
      ¬(0 < l.watcher.connecting ∧ l.watcher.now ≤ t + seconds 30) →
      ∃ (e : Event) (l' : WatchedLink), Prompt l e ∧ e.succeeds = false ∧
        step handshake safeLink l e = some l' := by
    intro l h hnot
    refine lost_goesOn safeLink h (Nat.eq_zero_of_not_pos fun hpos => ?_)
    exact hnot ⟨hpos, h.now⟩
  exact WindsDown.rationed (C := Prompt) 1 hkeeps hgoesOn

end WatchedLinkLemmas

end WatchedLink

open WatchedLink WatchedLinkLemmas

/-- In every run of a watcher and its connections, whatever their handshake
message is, no two connections have an operation outstanding, and a connect is
started only when none has. -/
theorem watched_alone (handshake : Message) (safeLink : Bool) (now : Int) (es : List Event)
    (l : WatchedLink) (h : runEvents (step handshake safeLink) (init now) es = some l) :
    (∀ (i j : Nat) (c d : Connection), l.connections[i]? = some c → l.connections[j]? = some d →
      c.pending ≠ [] → d.pending ≠ [] → i = j) ∧
    ∀ e l', step handshake safeLink l e = some l' →
      l.watcher.connecting < l'.watcher.connecting → ∀ c ∈ l.connections, c.pending = [] := by
  have htied := run_tied h
  constructor
  · intro i j c d hc hd hcpending hdpending
    have hi := (htied.live i c hc).mpr hcpending
    have hj := (htied.live j d hd).mpr hdpending
    rw [live_eq htied.single.known hj] at hi
    exact List.mem_singleton.mp hi
  · intro e l' hstep hmore c hc
    have hnone : l.watcher.live = [] := by
      cases step_cases hstep with
      | watcher e w' hdestroy hwatcher =>
        exact ClusterWatcherLemmas.connect_alone htied.single hwatcher hmore
      | connection i e c c' hcrashed hlive hc hconnection =>
        refine absurd hmore (Nat.not_lt.mpr ?_)
        dsimp only
        split <;> exact Nat.le_refl _
    obtain ⟨i, hi⟩ := List.mem_iff_getElem?.mp hc
    by_contra hpending
    have hlive := (htied.live i c hi).mpr hpending
    rw [hnone] at hlive
    cases hlive

/-- When the connection of a watched link has been closed, whatever may be
outstanding of it, a watcher that has been started connects again, provided that
the process has not ended (`crashed`): with at most `k` operations that complete
with success yet, every run comes to that after so many steps, and no later than
30 s from then. -/
theorem watched_link_restored (handshake : Message) (safeLink : Bool) (now : Int) (es : List Event)
    (l : WatchedLink) (k : Nat)
    (h : runEvents (step handshake safeLink) (init now) es = some l)
    (hstarted : l.watcher.started = true) (hcrashed : l.crashed = false)
    (hdown : ∀ c ∈ l.connections, c.pending ≠ [] → c.dropped = true) :
    EndsWithin (rationed (step handshake safeLink) Event.succeeds) (fun s e => Prompt s.1 e)
      (fun s => 0 < s.1.watcher.connecting ∧ s.1.watcher.now ≤ l.watcher.now + seconds 30) (l, k)
      (outstanding l + 5 + k) := by
  have hends := (lost_windsDown handshake safeLink).endsWithin (s := (l, k))
    (tied_lost (run_tied h) hstarted hcrashed hdown)
  refine hends.mono ?_
  rw [Nat.one_mul]
  exact Nat.add_le_add_right (Nat.add_le_add_left (ahead_le l.watcher) _) k

/-- A link is made, is used, and is reset 10 s later. -/
def lostRun : List WatchedLink.Event :=
  [.watcher .run, .watcher (.connected true (true, true)), .watcher (.tick 10000000000)] ++
    resetRun.map (.connection 0)

theorem watched_alone_reset :
    ∃ l, runEvents (step (.fromVector [9]) true) (init 0) lostRun = some l ∧
      l.watcher.live = [0] ∧
      (∀ (i j : Nat) (c d : Connection), l.connections[i]? = some c → l.connections[j]? = some d →
        c.pending ≠ [] → d.pending ≠ [] → i = j) :=
  ⟨_, rfl, rfl, (watched_alone (.fromVector [9]) true 0 lostRun _ rfl).1⟩

theorem watched_link_restored_reset :
    ∃ l, runEvents (step (.fromVector [9]) true) (init 0) lostRun = some l ∧
      EndsWithin (rationed (step (.fromVector [9]) true) Event.succeeds) (fun s e => Prompt s.1 e)
        (fun s => 0 < s.1.watcher.connecting ∧ s.1.watcher.now ≤ seconds 40) (l, 1) 7 := by
  refine ⟨_, rfl, watched_link_restored (.fromVector [9]) true 0 lostRun _ 1 rfl rfl rfl ?_⟩
  intro c hc _
  rw [List.mem_singleton.mp hc]
  rfl

end Ian.Cluster
