import Ian.Lib.Machine
import Mathlib.Algebra.Ring.Int.Defs

/-!
# The main loop of front

`server/front/src/Main.cpp` from the point where the signal handlers are
installed, and `server/common/src/AsioPool.cpp`. `Main.next` is one step of the
main thread; a signal handler runs between two of its steps.

A request is recorded twice, in a flag and in the stopped state of the
`io_context`s, and main resets both: `restart()` once for each `io_context`,
`should_reload` after the load. A signal that fires before a `restart()` that
still comes, or during a load, is forgotten. `signals_heard` says that no other
one is.
-/

namespace Ian.Front

open Ian.Lib

/-- An `AsioInstance`. -/
structure AsioInstance where
  /-- The `io_context` is stopped. -/
  stopped : Bool
  /-- The current value of the configuration. -/
  threads : Int
  /-- The workers, and whether `asio.run()` has returned in each. -/
  workers : List Bool
deriving DecidableEq, Repr

/-- `(std::size_t) instance->threads`. -/
def AsioInstance.threadCount (a : AsioInstance) : Nat := (a.threads % 2 ^ 64).toNat

/-- The next thing main does. -/
inductive Location where
  /-- `asio.restart()` of an instance, or the end of the first loop. -/
  | restart (i : Nat)
  /-- The loop that starts the workers of an instance. -/
  | start (i : Nat)
  /-- `join` on a worker of an instance, or the end of the loop over them. -/
  | join (i k : Nat)
  | testStop
  | testReload
  /-- The call of `config::load`. -/
  | load
  /-- In `config::load`. -/
  | loading
  /-- `should_reload = false`. -/
  | clearReload
  | returned (code : Nat)
deriving DecidableEq, Repr

structure Main where
  location : Location
  instances : List AsioInstance
  shouldStop : Bool
  shouldReload : Bool
  -- Logs.
  /-- `sig_reload` has run, and no `config::load` has started since. -/
  reloadPending : Bool
deriving DecidableEq, Repr

namespace Main

/-- Main when the handlers are installed; the argument has the threads of each
instance. -/
def init (threads : List Int) : Main :=
  { location := .restart 0, instances := threads.map fun t => ⟨false, t, []⟩,
    shouldStop := false, shouldReload := false, reloadPending := false }

/-- `AsioPool::stop`. -/
def stop (s : Main) : Main :=
  { s with instances := s.instances.map fun a => { a with stopped := true } }

def sigStop (s : Main) : Main := { s with shouldStop := true }.stop

def sigReload (s : Main) : Main := { s with shouldReload := true, reloadPending := true }.stop

/-- A step of main. The argument is what `config::load` gives if main is in it:
the new thread counts, or `none` if it fails. -/
def next (config : Option (Nat → Int)) (s : Main) : Option Main :=
  match s.location with
  | .restart i =>
    match s.instances[i]? with
    | none => some { s with location := .join 0 0 }
    | some a =>
      some { s with
        instances := s.instances.set i { a with stopped := false }
        location := .start i }
  | .start i =>
    match s.instances[i]? with
    | none => none
    | some a =>
      if a.workers.length < a.threadCount then
        some { s with instances := s.instances.set i { a with workers := a.workers ++ [false] } }
      else some { s with location := .restart (i + 1) }
  | .join i k =>
    match s.instances[i]? with
    | none => some { s with location := .testStop }
    | some a =>
      match a.workers[k]? with
      -- `join` blocks until the worker has returned.
      | some false => none
      | some true => some { s with location := .join i (k + 1) }
      | none =>
        some { s with
          instances := s.instances.set i { a with workers := [] }
          location := .join (i + 1) 0 }
  | .testStop => some { s with location := if s.shouldStop then .returned 0 else .testReload }
  | .testReload => some { s with location := if s.shouldReload then .load else .returned 1 }
  | .load => some { s with location := .loading, reloadPending := false }
  | .loading =>
    match config with
    | none => some { s with location := .returned 1 }
    | some threads =>
      some { s with
        instances := s.instances.mapIdx fun i a => { a with threads := threads i }
        location := .clearReload }
  | .clearReload => some { s with shouldReload := false, location := .restart 0 }
  | .returned _ => none

/-- `asio.run()` returns in a worker: only a stopped `io_context` has no work. -/
def workerReturns (i k : Nat) (s : Main) : Option Main :=
  match s.instances[i]? with
  | none => none
  | some a =>
    if a.stopped && a.workers[k]? = some false then
      some { s with instances := s.instances.set i { a with workers := a.workers.set k true } }
    else none

inductive Event where
  | main (config : Option (Nat → Int))
  | worker (i k : Nat)
  | sigStop
  | sigReload

def isReturned (s : Main) : Bool :=
  match s.location with
  | .returned _ => true
  | _ => false

def step (s : Main) : Event → Option Main
  | .main config => s.next config
  | .worker i k => s.workerReturns i k
  | .sigStop => if s.isReturned then none else some s.sigStop
  | .sigReload => if s.isReturned then none else some s.sigReload

/-- Main waits in `join` for a worker of an `io_context` that is not stopped. -/
def leftWaiting (s : Main) : Bool :=
  match s.location with
  | .join i k =>
    match s.instances[i]? with
    | none => false
    | some a => !a.stopped && a.workers[k]? = some false
  | _ => false

/-- After `sig_stop`, and after `sig_reload` until a load starts, main does not
wait for an `io_context` that is not stopped. -/
def Heard (s : Main) : Prop :=
  (s.shouldStop = true → s.leftWaiting = false) ∧
  (s.reloadPending = true → s.leftWaiting = false)

/-- No `io_context` is going to be restarted before the next test of the
flags. -/
def restarted (s : Main) : Bool :=
  match s.location with
  | .restart i => decide (s.instances.length ≤ i)
  | .start i => decide (s.instances.length ≤ i + 1)
  | .join _ _ => true
  | .testStop => true
  | _ => false

/-- The moments at which a signal is not forgotten: when every `io_context` has
been restarted and the flags are not tested yet, or between the two tests if
the other flag does not decide; for a reload also before the load starts. -/
def safe (s : Main) : Event → Bool
  | .sigStop => s.restarted || (s.location = .testReload && !s.shouldReload)
  | .sigReload =>
    s.restarted || (s.location = .testReload && !s.shouldStop) || s.location = .load
  | _ => true

/-! ## The invariant -/

def AllStopped (s : Main) : Prop := ∀ a ∈ s.instances, a.stopped = true

/-- Where main can be while a request is not seen yet: on its way to the tests,
with every `io_context` stopped for good, or at one of them. The arguments say
whether it can be between the tests, and before a load. -/
def Attends (between load : Prop) (s : Main) : Prop :=
  match s.location with
  | .restart _ => s.restarted = true ∧ s.AllStopped
  | .start _ => s.restarted = true ∧ s.AllStopped
  | .join _ _ => s.AllStopped
  | .testStop => True
  | .testReload => between
  | .load => load
  | .loading => False
  | .clearReload => False
  | .returned _ => True

structure Attentive (s : Main) : Prop where
  stop : s.shouldStop = true → s.Attends (s.shouldReload = false) False
  reload : s.reloadPending = true → s.shouldReload = true ∧ s.Attends True True

end Main

namespace MainLemmas

open Main

variable {s s' : Main} {P Q : Prop} {config : Option (Nat → Int)}

theorem set_allStopped (h : s.AllStopped) {i : Nat} {a b : AsioInstance}
    (ha : s.instances[i]? = some a) (hb : b.stopped = a.stopped) :
    { s with instances := s.instances.set i b }.AllStopped := by
  intro c hc
  rcases List.mem_or_eq_of_mem_set hc with hmem | rfl
  · exact h c hmem
  · exact hb.trans (h a (List.mem_of_getElem? ha))

theorem stop_allStopped (s : Main) : s.stop.AllStopped := by
  intro a ha
  obtain ⟨b, _, rfl⟩ := List.mem_map.mp ha
  rfl

/-- What main waits for does not depend on the workers. -/
theorem set_attends {i : Nat} {a b : AsioInstance} (ha : s.instances[i]? = some a)
    (hb : b.stopped = a.stopped) (h : s.Attends P Q) :
    Attends P Q { s with instances := s.instances.set i b } := by
  have hrestarted : { s with instances := s.instances.set i b }.restarted = s.restarted := by
    unfold restarted
    rw [List.length_set]
  unfold Attends at h ⊢
  rw [hrestarted]
  dsimp only
  split at h
  · exact ⟨h.1, set_allStopped h.2 ha hb⟩
  · exact ⟨h.1, set_allStopped h.2 ha hb⟩
  · exact set_allStopped h ha hb
  all_goals exact h

theorem restart_attends {i : Nat} (hloc : s.location = .restart i) :
    s.Attends P Q ↔ s.instances.length ≤ i ∧ s.AllStopped := by
  unfold Attends restarted
  rw [hloc]
  exact and_congr_left fun _ => decide_eq_true_iff

theorem start_attends {i : Nat} (hloc : s.location = .start i) :
    s.Attends P Q ↔ s.instances.length ≤ i + 1 ∧ s.AllStopped := by
  unfold Attends restarted
  rw [hloc]
  exact and_congr_left fun _ => decide_eq_true_iff

theorem join_attends {i k : Nat} (hloc : s.location = .join i k) :
    s.Attends P Q ↔ s.AllStopped := by
  unfold Attends
  rw [hloc]

theorem testReload_attends (hloc : s.location = .testReload) : s.Attends P Q ↔ P := by
  unfold Attends
  rw [hloc]

theorem load_attends (hloc : s.location = .load) : s.Attends P Q ↔ Q := by
  unfold Attends
  rw [hloc]

theorem not_attends_reload (hloc : s.location = .loading ∨ s.location = .clearReload) :
    ¬s.Attends P Q := by
  unfold Attends
  rcases hloc with hloc | hloc <;> simp [hloc]

/-- In the load no request is waiting. -/
theorem no_request (hs : s.Attentive)
    (hloc : s.location = .loading ∨ s.location = .clearReload) :
    s.shouldStop ≠ true ∧ s.reloadPending ≠ true :=
  ⟨fun hstop => not_attends_reload hloc (hs.stop hstop),
    fun hp => not_attends_reload hloc (hs.reload hp).2⟩

/-- In `AsioPool::run` main keeps the flags, and goes on to the tests if it is
on its way there. -/
theorem next_run (hloc : (∃ i, s.location = .restart i) ∨ (∃ i, s.location = .start i) ∨
      ∃ i k, s.location = .join i k) (h : s.next config = some s') :
    (s'.shouldStop = s.shouldStop ∧ s'.shouldReload = s.shouldReload ∧
      s'.reloadPending = s.reloadPending) ∧ ∀ P Q, s.Attends P Q → s'.Attends P Q := by
  rcases hloc with ⟨i, hloc⟩ | ⟨i, hloc⟩ | ⟨i, k, hloc⟩
  · simp only [next, hloc] at h
    split at h
    · cases h
      refine ⟨⟨rfl, rfl, rfl⟩, fun P Q hs => ?_⟩
      exact (join_attends rfl).mpr ((restart_attends hloc).mp hs).2
    · next a ha =>
      cases h
      refine ⟨⟨rfl, rfl, rfl⟩, fun P Q hs => ?_⟩
      -- There is an instance left to restart, so a request could not be waiting.
      obtain ⟨hlen, _⟩ := (restart_attends hloc).mp hs
      rw [List.getElem?_eq_none hlen] at ha
      cases ha
  · simp only [next, hloc] at h
    split at h
    · cases h
    · next a ha =>
      split at h
      · cases h
        refine ⟨⟨rfl, rfl, rfl⟩, fun P Q hs => ?_⟩
        have hset := set_attends ha (b := { a with workers := a.workers ++ [false] }) rfl hs
        rw [hloc] at hset
        exact hset
      · cases h
        refine ⟨⟨rfl, rfl, rfl⟩, fun P Q hs => ?_⟩
        exact (restart_attends rfl).mpr ((start_attends hloc).mp hs)
  · simp only [next, hloc] at h
    split at h
    · cases h
      exact ⟨⟨rfl, rfl, rfl⟩, fun P Q _ => trivial⟩
    · next a ha =>
      split at h
      · cases h
      · cases h
        exact ⟨⟨rfl, rfl, rfl⟩, fun P Q hs => (join_attends rfl).mpr ((join_attends hloc).mp hs)⟩
      · cases h
        refine ⟨⟨rfl, rfl, rfl⟩, fun P Q hs => ?_⟩
        exact (join_attends rfl).mpr (set_allStopped ((join_attends hloc).mp hs) ha rfl)

theorem next_run_attentive (hs : s.Attentive) (hloc : (∃ i, s.location = .restart i) ∨
      (∃ i, s.location = .start i) ∨ ∃ i k, s.location = .join i k)
    (h : s.next config = some s') : s'.Attentive := by
  obtain ⟨⟨hstop, hreload, hpending⟩, hattends⟩ := next_run hloc h
  constructor
  · intro h'
    rw [hreload]
    exact hattends _ _ (hs.stop (hstop.symm.trans h'))
  · intro h'
    obtain ⟨hflag, hseen⟩ := hs.reload (hpending.symm.trans h')
    exact ⟨hreload.trans hflag, hattends _ _ hseen⟩

/-- A step of main keeps the invariant. -/
theorem next_attentive (hs : s.Attentive) (h : s.next config = some s') : s'.Attentive := by
  cases hloc : s.location with
  | restart i => exact next_run_attentive hs (Or.inl ⟨i, hloc⟩) h
  | start i => exact next_run_attentive hs (Or.inr (Or.inl ⟨i, hloc⟩)) h
  | join i k => exact next_run_attentive hs (Or.inr (Or.inr ⟨i, k, hloc⟩)) h
  | testStop =>
    simp only [next, hloc] at h
    by_cases hstop : s.shouldStop = true
    · rw [if_pos hstop] at h
      cases h
      exact ⟨fun _ => trivial, fun hp => ⟨(hs.reload hp).1, trivial⟩⟩
    · rw [if_neg hstop] at h
      cases h
      exact ⟨fun hstop' => absurd hstop' hstop, fun hp => ⟨(hs.reload hp).1, trivial⟩⟩
  | testReload =>
    simp only [next, hloc] at h
    by_cases hreload : s.shouldReload = true
    · rw [if_pos hreload] at h
      cases h
      refine ⟨fun hstop => ?_, fun _ => ⟨hreload, trivial⟩⟩
      have hnone := (testReload_attends hloc).mp (hs.stop hstop)
      cases hreload.symm.trans hnone
    · rw [if_neg hreload] at h
      cases h
      exact ⟨fun _ => trivial, fun hp => absurd (hs.reload hp).1 hreload⟩
  | load =>
    simp only [next, hloc] at h
    cases h
    exact ⟨fun hstop => ((load_attends hloc).mp (hs.stop hstop)).elim, nofun⟩
  | loading =>
    obtain ⟨hstop, hreload⟩ := no_request hs (Or.inl hloc)
    simp only [next, hloc] at h
    split at h <;> cases h
    · exact ⟨fun h => absurd h hstop, fun h => absurd h hreload⟩
    · exact ⟨fun h => absurd h hstop, fun h => absurd h hreload⟩
  | clearReload =>
    obtain ⟨hstop, hreload⟩ := no_request hs (Or.inr hloc)
    simp only [next, hloc] at h
    cases h
    exact ⟨fun h => absurd h hstop, fun h => absurd h hreload⟩
  | returned code =>
    simp only [next, hloc] at h
    cases h

theorem worker_attentive (hs : s.Attentive) {i k : Nat} (h : s.workerReturns i k = some s') :
    s'.Attentive := by
  unfold workerReturns at h
  split at h
  · cases h
  · next a ha =>
    split at h
    · cases h
      have hattends : ∀ P Q, s.Attends P Q → Attends P Q { s with
          instances := s.instances.set i { a with workers := a.workers.set k true } } := by
        intro P Q hseen
        exact set_attends ha (b := { a with workers := a.workers.set k true }) rfl hseen
      exact ⟨fun hstop => hattends _ _ (hs.stop hstop),
        fun hp => ⟨(hs.reload hp).1, hattends _ _ (hs.reload hp).2⟩⟩
    · cases h

/-- Main attends to a signal that fires when every `io_context` is restarted. -/
theorem restarted_attends (h : s.restarted = true) : s.stop.Attends P Q := by
  have hrestarted : s.stop.restarted = true := by
    unfold restarted stop
    rw [List.length_map]
    exact h
  have hstopped := stop_allStopped s
  have hlocation : s.stop.location = s.location := rfl
  unfold Attends
  rw [hlocation]
  unfold restarted at h
  cases hloc : s.location with
  | restart i => exact ⟨hrestarted, hstopped⟩
  | start i => exact ⟨hrestarted, hstopped⟩
  | join i k => exact hstopped
  | testStop => trivial
  | returned code => trivial
  | testReload => simp [hloc] at h
  | load => simp [hloc] at h
  | loading => simp [hloc] at h
  | clearReload => simp [hloc] at h

theorem sigStop_attentive (hs : s.Attentive) (hsafe : s.safe .sigStop = true) :
    s.sigStop.Attentive := by
  unfold safe at hsafe
  rcases Bool.or_eq_true_iff.mp hsafe with hrestarted | hbetween
  · constructor
    · intro _
      exact restarted_attends (s := { s with shouldStop := true }) hrestarted
    · intro hp
      exact ⟨(hs.reload hp).1, restarted_attends (s := { s with shouldStop := true }) hrestarted⟩
  · simp only [Bool.and_eq_true, decide_eq_true_eq, Bool.not_eq_true'] at hbetween
    obtain ⟨hloc, hreload⟩ := hbetween
    constructor
    · intro _
      exact (testReload_attends (s := s.sigStop) hloc).mpr hreload
    · intro hp
      cases hreload.symm.trans (hs.reload hp).1

theorem sigReload_attentive (hs : s.Attentive) (hsafe : s.safe .sigReload = true) :
    s.sigReload.Attentive := by
  unfold safe at hsafe
  simp only [Bool.or_eq_true, Bool.and_eq_true, decide_eq_true_eq, Bool.not_eq_true'] at hsafe
  rcases hsafe with (hrestarted | ⟨hloc, hstop⟩) | hloc
  · have hattends : ∀ P Q, s.sigReload.Attends P Q := fun P Q =>
      restarted_attends (s := { s with shouldReload := true, reloadPending := true }) hrestarted
    exact ⟨fun _ => hattends _ _, fun _ => ⟨rfl, hattends _ _⟩⟩
  · constructor
    · intro hstop'
      cases hstop.symm.trans hstop'
    · intro _
      exact ⟨rfl, (testReload_attends (s := s.sigReload) hloc).mpr trivial⟩
  · constructor
    · intro hstop
      exact ((load_attends hloc).mp (hs.stop hstop)).elim
    · intro _
      exact ⟨rfl, (load_attends (s := s.sigReload) hloc).mpr trivial⟩

theorem step_attentive {e : Event} (hs : s.Attentive) (hsafe : s.safe e = true)
    (h : s.step e = some s') : s'.Attentive := by
  cases e with
  | main config => exact next_attentive hs h
  | worker i k => exact worker_attentive hs h
  | sigStop =>
    simp only [step] at h
    split at h <;> cases h
    exact sigStop_attentive hs hsafe
  | sigReload =>
    simp only [step] at h
    split at h <;> cases h
    exact sigReload_attentive hs hsafe

/-- Main does not wait for a running `io_context` if all are stopped. -/
theorem attends_not_leftWaiting (h : s.Attends P Q) : s.leftWaiting = false := by
  unfold leftWaiting
  split
  · next i k hloc =>
    have hstopped := (join_attends hloc).mp h
    split
    · rfl
    · next a ha => rw [hstopped a (List.mem_of_getElem? ha), Bool.not_true, Bool.false_and]
  · rfl

theorem attentive_heard (h : s.Attentive) : s.Heard :=
  ⟨fun hstop => attends_not_leftWaiting (h.stop hstop),
    fun hp => attends_not_leftWaiting (h.reload hp).2⟩

end MainLemmas

open MainLemmas

/-- No request is lost in a run in which every signal fires at a safe moment. -/
theorem signals_heard (threads : List Int) (es : List Main.Event) (s : Main)
    (hsafe : AllSteps Main.step (fun s e => s.safe e = true) (Main.init threads) es)
    (hrun : runEvents Main.step (Main.init threads) es = some s) : s.Heard := by
  have hinit : (Main.init threads).Attentive := ⟨nofun, nofun⟩
  have hinv : s.Attentive := by
    refine run_invariant_of ?_ hinit hsafe hrun
    intro s e s' hs hsafe hstep
    exact step_attentive hs hsafe hstep
  exact attentive_heard hinv

/-- Main starts one worker in each of two instances and waits for the first. -/
def startRun : List Main.Event := List.replicate 7 (.main none)

/-- Main is told to reload while it waits, and is in the load. -/
def loadRun : List Main.Event :=
  startRun ++ [.sigReload, .worker 0 0, .worker 1 0] ++ List.replicate 8 (.main none)

/-- The load ends, and main waits again. -/
def againRun : List Main.Event := [.main (some fun _ => 1), .main none] ++ startRun

/-- After the load, main is told to stop while it waits. -/
def reloadRun : List Main.Event := loadRun ++ againRun ++ [.sigStop]

theorem signals_heard_reload :
    AllSteps Main.step (fun s e => s.safe e = true) (Main.init [1, 1]) reloadRun ∧
    ∃ s, runEvents Main.step (Main.init [1, 1]) reloadRun = some s ∧
      s.location = .join 0 0 ∧ s.shouldStop = true ∧ s.leftWaiting = false := by
  have hsafe : AllSteps Main.step (fun s e => s.safe e = true) (Main.init [1, 1]) reloadRun := by
    decide
  exact ⟨hsafe, _, rfl, rfl, rfl, (signals_heard [1, 1] reloadRun _ hsafe rfl).1 rfl⟩

/-- A stop before the first restart, a stop between the restarts of two
instances, a stop in the load and a reload in the load are lost. -/
theorem signals_lost :
    (∃ s, runEvents Main.step (Main.init [1, 1]) (.sigStop :: startRun) = some s ∧
      s.shouldStop = true ∧ s.leftWaiting = true) ∧
    (∃ s, runEvents Main.step (Main.init [1, 1])
        ([.main none, .sigStop] ++ List.replicate 6 (.main none) ++
          [.worker 0 0, .main none, .main none]) = some s ∧
      s.shouldStop = true ∧ s.leftWaiting = true) ∧
    (∃ s, runEvents Main.step (Main.init [1, 1]) (loadRun ++ [.sigStop] ++ againRun) = some s ∧
      s.shouldStop = true ∧ s.leftWaiting = true) ∧
    (∃ s, runEvents Main.step (Main.init [1, 1]) (loadRun ++ [.sigReload] ++ againRun) = some s ∧
      s.reloadPending = true ∧ s.leftWaiting = true) :=
  ⟨⟨_, rfl, rfl, rfl⟩, ⟨_, rfl, rfl, rfl⟩, ⟨_, rfl, rfl, rfl⟩, ⟨_, rfl, rfl, rfl⟩⟩

end Ian.Front
