import Ian.Front.Main
import Ian.Lib.Progress

/-!
# The runs of main

Main loads the configuration while no worker can read it: `AsioPool::run`
returns after it has joined every worker it has started (`load_alone`). It
comes back only if a signal has stopped the `io_context`s, which is what the
messages before its exits rely on (`exit_codes`), and a signal that it does not
forget has an effect after a bounded number of steps (`requests_served`).
-/

namespace Ian.Front

open Ian.Lib

/-- What main has done with an instance since it entered `AsioPool::run`. -/
inductive Phase where
  | idle
  | starting
  | running
  | joined

def Location.phase (j : Nat) : Location → Phase
  | .restart i => if j < i then .running else .idle
  | .start i => if j < i then .running else if j = i then .starting else .idle
  | .join i _ => if j < i then .joined else .running
  | .testStop => .joined
  | .testReload => .joined
  | _ => .idle

/-- The workers of an instance. An `io_context` stops, and its workers return,
only if main has been asked for something. -/
def AsioInstance.Crewed (a : AsioInstance) (asked : Prop) : Phase → Prop
  | .idle => a.workers = []
  | .starting =>
    a.workers.length ≤ a.threadCount ∧ (a.stopped = true ∨ true ∈ a.workers → asked)
  | .running =>
    a.workers.length = a.threadCount ∧ (a.stopped = true ∨ true ∈ a.workers → asked)
  | .joined => a.workers = [] ∧ (0 < a.threadCount → asked)

namespace Main

/-- A flag is set that main still looks at. -/
def Asked (s : Main) : Prop :=
  (s.shouldStop = true ∧ s.location ≠ .testReload) ∨ s.shouldReload = true

structure Crewed (s : Main) : Prop where
  crew : ∀ (j : Nat) (a : AsioInstance), s.instances[j]? = some a →
    a.Crewed s.Asked (s.location.phase j)
  starting : ∀ i, s.location = .start i → i < s.instances.length
  joining : ∀ i k, s.location = .join i k → 0 < k → s.Asked
  joined : ∀ i k a, s.location = .join i k → s.instances[i]? = some a → k ≤ a.workers.length

/-- Main is outside `AsioPool::run`. -/
def outside (s : Main) : Bool :=
  match s.location with
  | .restart _ => false
  | .start _ => false
  | .join _ _ => false
  | _ => true

end Main

namespace MainRunLemmas

open Main

variable {s s' : Main} {asked asked' : Prop} {config : Option (Nat → Int)}

theorem crewed_mono {a : AsioInstance} {phase : Phase} (h : asked → asked')
    (hcrew : a.Crewed asked phase) : a.Crewed asked' phase := by
  cases phase with
  | idle => exact hcrew
  | starting => exact ⟨hcrew.1, fun hs => h (hcrew.2 hs)⟩
  | running => exact ⟨hcrew.1, fun hs => h (hcrew.2 hs)⟩
  | joined => exact ⟨hcrew.1, fun hs => h (hcrew.2 hs)⟩

/-- Instance `i` is replaced, and the others go on. -/
theorem crew_set {l : List AsioInstance} {i : Nat} {b : AsioInstance} {phase : Nat → Phase}
    (hb : b.Crewed asked (phase i))
    (hrest : ∀ j a, j ≠ i → l[j]? = some a → a.Crewed asked (phase j)) (j : Nat)
    (a : AsioInstance) (h : (l.set i b)[j]? = some a) : a.Crewed asked (phase j) := by
  by_cases hj : j = i
  · subst hj
    rw [List.getElem?_set_self'] at h
    cases hl : l[j]? with
    | none => simp [hl] at h
    | some c =>
      simp only [hl, Option.map_eq_map, Option.map_some, Option.some.injEq] at h
      rw [← h]
      exact hb
  · rw [List.getElem?_set_ne (Ne.symm hj)] at h
    exact hrest j a hj h

theorem lt_of_getElem? {α : Type} {l : List α} {j : Nat} {a : α} (h : l[j]? = some a) :
    j < l.length := (List.getElem?_eq_some_iff.mp h).1

/-- Outside `AsioPool::run` no worker is left. -/
theorem crew_none {j : Nat} {a : AsioInstance} (hs : s.Crewed) (ha : s.instances[j]? = some a)
    (hout : s.outside = true) : a.workers = [] := by
  have hcrew := hs.crew j a ha
  unfold outside at hout
  split at hout
  · cases hout
  · cases hout
  · cases hout
  · next hrestart hstart hjoin =>
    cases hloc : s.location with
    | restart i => exact absurd hloc (hrestart i)
    | start i => exact absurd hloc (hstart i)
    | join i k => exact absurd hloc (hjoin i k)
    | testStop => rw [hloc] at hcrew; exact hcrew.1
    | testReload => rw [hloc] at hcrew; exact hcrew.1
    | _ => rw [hloc] at hcrew; exact hcrew

theorem asked_of_same (hstop : s'.shouldStop = s.shouldStop)
    (hreload : s'.shouldReload = s.shouldReload)
    (hout : decide (s'.location = .testReload) = false)
    (hs : s.Asked) : s'.Asked :=
  hs.imp (fun h => ⟨hstop.trans h.1, of_decide_eq_false hout⟩) (fun h => hreload.trans h)

theorem crewed_starting {i : Nat} (hloc : s.location = .start i)
    (hcrew : ∀ (j : Nat) (a : AsioInstance), s.instances[j]? = some a →
      a.Crewed s.Asked (s.location.phase j))
    (hlen : i < s.instances.length) : s.Crewed where
  crew := hcrew
  starting j hj := by
    cases hloc.symm.trans hj
    exact hlen
  joining j k hj := by cases hloc.symm.trans hj
  joined j k a hj := by cases hloc.symm.trans hj

theorem crewed_joining {i k : Nat} (hloc : s.location = .join i k)
    (hcrew : ∀ (j : Nat) (a : AsioInstance), s.instances[j]? = some a →
      a.Crewed s.Asked (s.location.phase j))
    (hasked : 0 < k → s.Asked)
    (hjoined : ∀ a, s.instances[i]? = some a → k ≤ a.workers.length) : s.Crewed where
  crew := hcrew
  starting j hj := by cases hloc.symm.trans hj
  joining j l hj := by
    cases hloc.symm.trans hj
    exact hasked
  joined j l a hj := by
    cases hloc.symm.trans hj
    exact hjoined a

/-- Main neither starts nor joins workers. -/
theorem crewed_away
    (hloc : s.outside = true ∨ ∃ i, s.location = .restart i)
    (hcrew : ∀ (j : Nat) (a : AsioInstance), s.instances[j]? = some a →
      a.Crewed s.Asked (s.location.phase j)) : s.Crewed where
  crew := hcrew
  starting i hi := by
    rcases hloc with hout | ⟨j, hj⟩
    · simp [outside, hi] at hout
    · cases hi.symm.trans hj
  joining i k hi := by
    rcases hloc with hout | ⟨j, hj⟩
    · simp [outside, hi] at hout
    · cases hi.symm.trans hj
  joined i k a hi := by
    rcases hloc with hout | ⟨j, hj⟩
    · simp [outside, hi] at hout
    · cases hi.symm.trans hj

/-- A step that replaces no instance. -/
theorem crewed_same (hs : s.Crewed) (hinstances : s'.instances = s.instances)
    (hasked : s.Asked → s'.Asked)
    (hphase : ∀ j, j < s.instances.length → s'.location.phase j = s.location.phase j) :
    ∀ (j : Nat) (a : AsioInstance), s'.instances[j]? = some a →
      a.Crewed s'.Asked (s'.location.phase j) := by
  intro j a ha
  rw [hinstances] at ha
  rw [hphase j (lt_of_getElem? ha)]
  exact crewed_mono hasked (hs.crew j a ha)

theorem restart_crewed {i : Nat} (hs : s.Crewed) (hloc : s.location = .restart i)
    (h : s.next config = some s') : s'.Crewed := by
  simp only [next, hloc] at h
  split at h
  · next hnone =>
    cases h
    have hlen := List.getElem?_eq_none_iff.mp hnone
    refine crewed_joining rfl
      (crewed_same hs rfl (asked_of_same (s := s) rfl rfl rfl) fun j hj => ?_)
      (fun hk => absurd hk (Nat.lt_irrefl 0)) fun a _ => Nat.zero_le _
    rw [hloc]
    simp [Location.phase, Nat.lt_of_lt_of_le hj hlen]
  · next a ha =>
    cases h
    have hidle : a.workers = [] := by
      have hcrew := hs.crew i a ha
      rw [hloc] at hcrew
      simpa [Location.phase, AsioInstance.Crewed] using hcrew
    refine crewed_starting rfl (crew_set ?_ fun j b hj hb => ?_) ?_
    · simp [Location.phase, AsioInstance.Crewed, hidle]
    · have hphase : Location.phase j (.start i) = s.location.phase j := by
        rw [hloc]
        simp [Location.phase, hj]
      show b.Crewed _ (Location.phase j (.start i))
      rw [hphase]
      exact crewed_mono (asked_of_same (s := s) rfl rfl rfl) (hs.crew j b hb)
    · show i < (s.instances.set i _).length
      rw [List.length_set]
      exact lt_of_getElem? ha

theorem start_crewed {i : Nat} (hs : s.Crewed) (hloc : s.location = .start i)
    (h : s.next config = some s') : s'.Crewed := by
  simp only [next, hloc] at h
  split at h
  · cases h
  next a ha =>
  have hcrew := hs.crew i a ha
  rw [hloc] at hcrew
  simp only [Location.phase, Nat.lt_irrefl, if_false, if_true, AsioInstance.Crewed] at hcrew
  split at h
  · next hless =>
    cases h
    refine crewed_starting rfl (crew_set ?_ fun j b hj hb => ?_) ?_
    · simp only [Location.phase, Nat.lt_irrefl, if_false, if_true, AsioInstance.Crewed]
      have hlen : (a.workers ++ [false]).length ≤ a.threadCount := by
        rw [List.length_append]
        exact hless
      refine ⟨hlen, fun hasked => asked_of_same (s := s) rfl rfl rfl (hcrew.2 ?_)⟩
      exact hasked.imp_right fun hmem => by simpa using hmem
    · refine crewed_mono (asked_of_same (s := s) rfl rfl rfl) ?_
      rw [← hloc]
      exact hs.crew j b hb
    · show i < (s.instances.set i _).length
      rw [List.length_set]
      exact lt_of_getElem? ha
  · next hless =>
    cases h
    refine crewed_away (.inr ⟨_, rfl⟩) fun j b hb => ?_
    refine crewed_mono (asked_of_same (s := s) rfl rfl rfl) ?_
    rcases Nat.lt_trichotomy j i with hj | rfl | hj
    · have hb' := hs.crew j b hb
      rw [hloc] at hb'
      simpa [Location.phase, hj, Nat.lt_succ_of_lt hj] using hb'
    · cases ha.symm.trans hb
      simp only [Location.phase, Nat.lt_succ_self, if_true, AsioInstance.Crewed]
      exact ⟨Nat.le_antisymm hcrew.1 (Nat.le_of_not_lt hless), hcrew.2⟩
    · have hb' := hs.crew j b hb
      rw [hloc] at hb'
      simpa [Location.phase, Nat.not_lt_of_gt hj, Nat.ne_of_gt hj,
        Nat.not_lt_of_le (Nat.succ_le_of_lt hj)] using hb'

theorem join_crewed {i k : Nat} (hs : s.Crewed) (hloc : s.location = .join i k)
    (h : s.next config = some s') : s'.Crewed := by
  simp only [next, hloc] at h
  split at h
  · next hnone =>
    cases h
    have hlen := List.getElem?_eq_none_iff.mp hnone
    refine crewed_away (.inl rfl)
      (crewed_same hs rfl (asked_of_same (s := s) rfl rfl rfl) fun j hj => ?_)
    rw [hloc]
    simp [Location.phase, Nat.lt_of_lt_of_le hj hlen]
  · next a ha =>
    have hcrew := hs.crew i a ha
    rw [hloc] at hcrew
    simp only [Location.phase, Nat.lt_irrefl, if_false, AsioInstance.Crewed] at hcrew
    split at h
    · cases h
    · next hworker =>
      cases h
      have hnow : s.Asked := hcrew.2 (Or.inr (List.mem_of_getElem? hworker))
      refine crewed_joining rfl
        (crewed_same hs rfl (asked_of_same (s := s) rfl rfl rfl) fun j hj => ?_)
        (fun _ => asked_of_same (s := s) rfl rfl rfl hnow) fun b hb => ?_
      · rw [hloc]
        rfl
      · cases ha.symm.trans hb
        exact lt_of_getElem? hworker
    · next hnone =>
      cases h
      have hlen := List.getElem?_eq_none_iff.mp hnone
      refine crewed_joining rfl (crew_set ?_ fun j b hj hb => ?_)
        (fun hk => absurd hk (Nat.lt_irrefl 0)) fun b _ => Nat.zero_le _
      · simp only [Location.phase, Nat.lt_succ_self, if_true, AsioInstance.Crewed, true_and]
        intro hthreads
        refine asked_of_same (s := s) rfl rfl rfl (hs.joining i k hloc ?_)
        exact Nat.lt_of_lt_of_le (hcrew.1 ▸ hthreads) hlen
      · have hb' := hs.crew j b hb
        rw [hloc] at hb'
        have hphase : Location.phase j (.join (i + 1) 0) = Location.phase j (.join i k) := by
          simp only [Location.phase]
          split <;> split <;> first | rfl | omega
        show b.Crewed _ (Location.phase j (.join (i + 1) 0))
        rw [hphase]
        exact crewed_mono (asked_of_same (s := s) rfl rfl rfl) hb'

/-- The phases after the joins and before the next restart. -/
theorem crewed_outside (hnone : ∀ (j : Nat) (a : AsioInstance), s'.instances[j]? = some a →
      a.workers = []) (hidle : ∀ j, s'.location.phase j = .idle)
    (hout : s'.outside = true ∨ ∃ i, s'.location = .restart i) : s'.Crewed := by
  refine crewed_away hout fun j a ha => ?_
  rw [hidle j]
  exact hnone j a ha

theorem outside_of_location {l : Location} (hloc : s.location = l)
    (h : l = .testStop ∨ l = .testReload ∨ l = .load ∨ l = .loading ∨ l = .clearReload) :
    s.outside = true := by
  unfold outside
  rw [hloc]
  rcases h with rfl | rfl | rfl | rfl | rfl <;> rfl

theorem next_crewed (hs : s.Crewed) (h : s.next config = some s') : s'.Crewed := by
  cases hloc : s.location with
  | restart i => exact restart_crewed hs hloc h
  | start i => exact start_crewed hs hloc h
  | join i k => exact join_crewed hs hloc h
  | testStop =>
    have hnone := fun j a ha => crew_none (j := j) (a := a) hs ha
      (outside_of_location hloc (.inl rfl))
    simp only [next, hloc] at h
    by_cases hstop : s.shouldStop = true
    · rw [if_pos hstop] at h
      cases h
      exact crewed_outside hnone (fun j => rfl) (.inl rfl)
    · rw [if_neg hstop] at h
      cases h
      refine crewed_away (.inl rfl) (crewed_same hs rfl ?_ fun j _ => ?_)
      · exact fun hasked => .inr (hasked.resolve_left fun h => hstop h.1)
      · rw [hloc]
        rfl
  | testReload =>
    have hnone := fun j a ha => crew_none (j := j) (a := a) hs ha
      (outside_of_location hloc (.inr (.inl rfl)))
    simp only [next, hloc] at h
    split at h <;> cases h <;> exact crewed_outside hnone (fun j => rfl) (.inl rfl)
  | load =>
    have hnone := fun j a ha => crew_none (j := j) (a := a) hs ha
      (outside_of_location hloc (.inr (.inr (.inl rfl))))
    simp only [next, hloc] at h
    cases h
    exact crewed_outside hnone (fun j => rfl) (.inl rfl)
  | loading =>
    have hnone := fun j a ha => crew_none (j := j) (a := a) hs ha
      (outside_of_location hloc (.inr (.inr (.inr (.inl rfl)))))
    simp only [next, hloc] at h
    split at h <;> cases h
    · exact crewed_outside hnone (fun j => rfl) (.inl rfl)
    · refine crewed_outside (fun j a ha => ?_) (fun j => rfl) (.inl rfl)
      obtain ⟨b, hb, rfl⟩ := Option.map_eq_some_iff.mp (List.getElem?_mapIdx.symm.trans ha)
      exact hnone j b hb
  | clearReload =>
    have hnone := fun j a ha => crew_none (j := j) (a := a) hs ha
      (outside_of_location hloc (.inr (.inr (.inr (.inr rfl)))))
    simp only [next, hloc] at h
    cases h
    exact crewed_outside hnone (fun j => rfl) (.inr ⟨0, rfl⟩)
  | returned code =>
    simp only [next, hloc] at h
    cases h

theorem worker_cases {i k : Nat} (h : s.workerReturns i k = some s') :
    ∃ a, s.instances[i]? = some a ∧ a.stopped = true ∧ a.workers[k]? = some false ∧ s' = { s with
      instances := s.instances.set i { a with workers := a.workers.set k true } } := by
  unfold workerReturns at h
  split at h
  · cases h
  next a ha =>
  split at h
  · next hworker =>
    cases h
    simp only [Bool.and_eq_true, decide_eq_true_eq] at hworker
    exact ⟨a, ha, hworker.1, hworker.2, rfl⟩
  · cases h

theorem worker_crewed (hs : s.Crewed) {i k : Nat} (h : s.workerReturns i k = some s') :
    s'.Crewed := by
  obtain ⟨a, ha, hstopped, hk, hs'⟩ := worker_cases h
  have hloc : s'.location = s.location := by rw [hs']
  have hasked : s'.Asked = s.Asked := by rw [hs']; rfl
  have hset : s'.instances = s.instances.set i { a with workers := a.workers.set k true } := by
    rw [hs']
  have hwas : a.workers ≠ [] := by
    intro hnil
    rw [hnil] at hk
    cases hk
  constructor
  · rw [hset, hloc, hasked]
    refine crew_set ?_ fun j b _ hb => hs.crew j b hb
    -- Its workers are not joined, and have been started.
    have hcrew := hs.crew i a ha
    cases hphase : s.location.phase i with
    | idle => rw [hphase] at hcrew; exact absurd hcrew hwas
    | joined => rw [hphase] at hcrew; exact absurd hcrew.1 hwas
    | starting =>
      rw [hphase] at hcrew
      refine ⟨?_, fun _ => hcrew.2 (.inl hstopped)⟩
      rw [List.length_set]
      exact hcrew.1
    | running =>
      rw [hphase] at hcrew
      refine ⟨?_, fun _ => hcrew.2 (.inl hstopped)⟩
      rw [List.length_set]
      exact hcrew.1
  · rw [hset, hloc, List.length_set]
    exact hs.starting
  · rw [hloc, hasked]
    exact hs.joining
  · rw [hset, hloc]
    intro j l b hj hb
    by_cases hij : j = i
    · subst hij
      cases (List.getElem?_set_self (lt_of_getElem? ha)).symm.trans hb
      show l ≤ (a.workers.set k true).length
      rw [List.length_set]
      exact hs.joined j l a hj ha
    · rw [List.getElem?_set_ne (Ne.symm hij)] at hb
      exact hs.joined j l b hj hb

/-- A signal stops the `io_context`s, and sets a flag. -/
theorem signal_crewed (hs : s.Crewed) (hloc : s'.location = s.location)
    (hinstances : s'.instances = s.stop.instances) (hasked : s.Asked → s'.Asked)
    (hflag : s.location ≠ .testReload → s'.Asked) : s'.Crewed := by
  have hback : ∀ {j : Nat} {b : AsioInstance}, s'.instances[j]? = some b →
      ∃ a, s.instances[j]? = some a ∧ { a with stopped := true } = b := by
    intro j b hb
    rw [hinstances] at hb
    exact Option.map_eq_some_iff.mp ((List.getElem?_map ..).symm.trans hb)
  refine ⟨fun j b hb => ?_, fun i hi => ?_, fun i k hi hk => ?_, fun i k b hi hb => ?_⟩
  · obtain ⟨a, ha, rfl⟩ := hback hb
    have hcrew := crewed_mono hasked (hs.crew j a ha)
    rw [hloc]
    have hasks : (s.location.phase j = .starting ∨ s.location.phase j = .running) → s'.Asked := by
      intro hphase
      refine hflag fun hreload => ?_
      rw [hreload] at hphase
      rcases hphase with h | h <;> cases h
    cases hphase : s.location.phase j with
    | idle => rw [hphase] at hcrew; exact hcrew
    | starting => rw [hphase] at hcrew; exact ⟨hcrew.1, fun _ => hasks (.inl hphase)⟩
    | running => rw [hphase] at hcrew; exact ⟨hcrew.1, fun _ => hasks (.inr hphase)⟩
    | joined => rw [hphase] at hcrew; exact hcrew
  · rw [hinstances]
    show i < (s.instances.map _).length
    rw [List.length_map]
    exact hs.starting i (hloc.symm.trans hi)
  · exact hasked (hs.joining i k (hloc.symm.trans hi) hk)
  · obtain ⟨a, ha, rfl⟩ := hback hb
    exact hs.joined i k a (hloc.symm.trans hi) ha

theorem step_crewed {e : Event} (hs : s.Crewed) (h : s.step e = some s') : s'.Crewed := by
  cases e with
  | main config => exact next_crewed hs h
  | worker i k => exact worker_crewed hs h
  | sigStop =>
    simp only [step] at h
    split at h <;> cases h
    exact signal_crewed hs rfl rfl (Or.imp_left fun h => ⟨rfl, h.2⟩) fun hout => .inl ⟨rfl, hout⟩
  | sigReload =>
    simp only [step] at h
    split at h <;> cases h
    exact signal_crewed hs rfl rfl (fun _ => .inr rfl) fun _ => .inr rfl

theorem init_crewed (threads : List Int) : (init threads).Crewed := by
  refine crewed_away (.inr ⟨0, rfl⟩) fun j a ha => ?_
  obtain ⟨t, _, rfl⟩ := Option.map_eq_some_iff.mp ((List.getElem?_map ..).symm.trans ha)
  rfl

end MainRunLemmas

open MainRunLemmas

/-- Whatever happens, no worker is left whenever main is outside
`AsioPool::run`, so that it loads the configuration and returns alone; and the
workers of an instance are never more than it is configured to have, and
neither more nor less when they are joined. -/
theorem load_alone (threads : List Int) (es : List Main.Event) (s : Main)
    (hrun : runEvents Main.step (Main.init threads) es = some s) :
    (s.outside = true → ∀ a ∈ s.instances, a.workers = []) ∧
      (∀ a ∈ s.instances, a.workers.length ≤ a.threadCount) ∧
      ∀ i k, s.location = .join i k → ∀ j a, i ≤ j → s.instances[j]? = some a →
        a.workers.length = a.threadCount := by
  have hs : s.Crewed := run_invariant (fun _ _ _ => step_crewed) (init_crewed threads) hrun
  refine ⟨fun hout a ha => ?_, fun a ha => ?_, fun i k hloc j a hij ha => ?_⟩
  · obtain ⟨j, hj⟩ := List.getElem?_of_mem ha
    exact crew_none hs hj hout
  · obtain ⟨j, hj⟩ := List.getElem?_of_mem ha
    have hcrew := hs.crew j a hj
    cases hphase : s.location.phase j with
    | idle => rw [hphase] at hcrew; rw [show a.workers = [] from hcrew]; exact Nat.zero_le _
    | starting => rw [hphase] at hcrew; exact hcrew.1
    | running => rw [hphase] at hcrew; exact Nat.le_of_eq hcrew.1
    | joined => rw [hphase] at hcrew; rw [hcrew.1]; exact Nat.zero_le _
  · have hcrew := hs.crew j a ha
    rw [hloc] at hcrew
    have hphase : Location.phase j (.join i k) = .running := if_neg (Nat.not_lt_of_le hij)
    rw [hphase] at hcrew
    exact hcrew.1

/-- Main is told to reload while it waits for two workers, and loads. -/
theorem load_alone_reload : ∃ s, runEvents Main.step (Main.init [1, 1]) loadRun = some s ∧
    s.location = .loading ∧ ∀ a ∈ s.instances, a.workers = [] :=
  ⟨_, rfl, rfl, (load_alone [1, 1] loadRun _ rfl).1 rfl⟩

/-! ## Exits -/

namespace Main

/-- Main returns 0 on a stop, and 1 if the load fails or if there are no
threads that could have been stopped. -/
def ExitsFor (s : Main) (e : Event) : Prop :=
  ∀ s' code, s.step e = some s' → s'.location = .returned code →
    (code = 0 ∧ s.shouldStop = true) ∨
    (code = 1 ∧ s.location = .loading ∧ e = .main none) ∨
    (code = 1 ∧ ∀ a ∈ s.instances, a.threadCount = 0)

/-- Main returns 0 only with the flag set. -/
def ReturnsStopped (s : Main) : Prop :=
  s.Crewed ∧ (s.location = .returned 0 → s.shouldStop = true)

end Main

namespace MainRunLemmas

open Main

variable {s s' : Main} {config : Option (Nat → Int)}

theorem next_exits {code : Nat} (hs : s.Crewed)
    (h : s.next config = some s') (hcode : s'.location = .returned code) :
    (code = 0 ∧ s.shouldStop = true) ∨
    (code = 1 ∧ s.location = .loading ∧ config = none) ∨
    (code = 1 ∧ ∀ a ∈ s.instances, a.threadCount = 0) := by
  cases hloc : s.location with
  | testStop =>
    simp only [next, hloc] at h
    by_cases hstop : s.shouldStop = true
    · rw [if_pos hstop] at h
      cases h
      cases hcode
      exact .inl ⟨rfl, hstop⟩
    · rw [if_neg hstop] at h
      cases h
      cases hcode
  | testReload =>
    simp only [next, hloc] at h
    by_cases hreload : s.shouldReload = true
    · rw [if_pos hreload] at h
      cases h
      cases hcode
    · rw [if_neg hreload] at h
      cases h
      cases hcode
      -- With a thread, a signal would have stopped it, and set one of the flags.
      refine .inr (.inr ⟨rfl, fun a ha => ?_⟩)
      obtain ⟨j, hj⟩ := List.getElem?_of_mem ha
      have hcrew := hs.crew j a hj
      rw [hloc] at hcrew
      by_contra hthreads
      rcases hcrew.2 (Nat.pos_of_ne_zero hthreads) with ⟨_, hout⟩ | hflag
      · exact hout hloc
      · exact hreload hflag
  | loading =>
    simp only [next, hloc] at h
    split at h <;> cases h <;> cases hcode
    exact .inr (.inl ⟨rfl, rfl, rfl⟩)
  | load => simp only [next, hloc] at h; cases h; cases hcode
  | clearReload => simp only [next, hloc] at h; cases h; cases hcode
  | returned code' => simp only [next, hloc] at h; cases h
  | restart i =>
    simp only [next, hloc] at h
    split at h <;> cases h <;> cases hcode
  | start i =>
    simp only [next, hloc] at h
    split at h
    · cases h
    · split at h <;> cases h <;> cases hcode
  | join i k =>
    simp only [next, hloc] at h
    split at h
    · cases h; cases hcode
    · split at h <;> cases h <;> cases hcode

theorem isReturned_of_location {code : Nat} (h : s.location = .returned code) :
    s.isReturned = true := by
  unfold isReturned
  rw [h]

/-- Once main has returned, nothing happens. -/
theorem step_running {e : Event} (hs : s.Crewed) (h : s.step e = some s') :
    s.isReturned = false := by
  by_contra hreturned
  have hreturned' := Bool.not_eq_false _ |>.mp hreturned
  unfold isReturned at hreturned'
  split at hreturned'
  · next code hloc =>
    cases e with
    | main config => simp only [step, next, hloc] at h; cases h
    | sigStop => rw [step, if_pos (isReturned_of_location hloc)] at h; cases h
    | sigReload => rw [step, if_pos (isReturned_of_location hloc)] at h; cases h
    | worker i k =>
      have hout : s.outside = true := by
        unfold outside
        rw [hloc]
      obtain ⟨a, ha, _, hk, _⟩ := worker_cases h
      rw [crew_none hs ha hout] at hk
      cases hk
  · cases hreturned'

theorem step_exits (hs : s.Crewed) (e : Event) : s.ExitsFor e := by
  intro s' code h hcode
  have hrunning := step_running hs h
  have hstays : s'.location = s.location → False := by
    intro hsame
    cases hrunning.symm.trans (isReturned_of_location (hsame.symm.trans hcode))
  cases e with
  | main config =>
    refine (next_exits hs h hcode).imp_right fun h => h.imp_left fun ⟨hc, hloc, hconfig⟩ => ?_
    exact ⟨hc, hloc, congrArg Event.main hconfig⟩
  | worker i k =>
    obtain ⟨a, _, _, _, rfl⟩ := worker_cases h
    exact (hstays rfl).elim
  | sigStop =>
    rw [step, if_neg (by rw [hrunning]; exact Bool.false_ne_true)] at h
    cases h
    exact (hstays rfl).elim
  | sigReload =>
    rw [step, if_neg (by rw [hrunning]; exact Bool.false_ne_true)] at h
    cases h
    exact (hstays rfl).elim

theorem next_shouldStop (h : s.next config = some s') : s'.shouldStop = s.shouldStop := by
  unfold next at h
  split at h <;> (try split at h) <;> (try split at h) <;> cases h <;> rfl

theorem step_shouldStop {e : Event} (h : s.step e = some s') :
    s'.shouldStop = true ↔ s.shouldStop = true ∨ e = .sigStop := by
  cases e with
  | main config => simp [next_shouldStop h]
  | worker i k =>
    have hsame : s'.shouldStop = s.shouldStop := by
      obtain ⟨a, _, _, _, rfl⟩ := worker_cases h
      rfl
    simp [hsame]
  | sigStop =>
    simp only [step] at h
    split at h <;> cases h
    exact ⟨fun _ => .inr rfl, fun _ => rfl⟩
  | sigReload =>
    have hsame : s'.shouldStop = s.shouldStop := by
      simp only [step] at h
      split at h <;> cases h
      rfl
    simp [hsame]

theorem run_shouldStop {es : List Event} (h : runEvents step s es = some s') :
    s'.shouldStop = true ↔ s.shouldStop = true ∨ .sigStop ∈ es := by
  induction es generalizing s with
  | nil =>
    cases h
    simp
  | cons e es ih =>
    obtain ⟨t, ht, hrest⟩ := Option.bind_eq_some_iff.mp h
    rw [ih hrest, step_shouldStop ht, List.mem_cons, or_assoc, @eq_comm _ _ e]

theorem step_returnsStopped {e : Event} (hs : s.ReturnsStopped) (h : s.step e = some s') :
    s'.ReturnsStopped := by
  refine ⟨step_crewed hs.1 h, fun hloc => (step_shouldStop h).mpr (.inl ?_)⟩
  rcases step_exits hs.1 e s' 0 h hloc with ⟨_, hstop⟩ | ⟨hcode, _⟩ | ⟨hcode, _⟩
  · exact hstop
  · cases hcode
  · cases hcode

end MainRunLemmas

/-- In every run, main returns 0 only if `sig_stop` has fired, and 1 only if a
load fails, or if no instance has a thread; it never finds the
`io_context`s stopped without a signal otherwise. -/
theorem exit_codes (threads : List Int) (es : List Main.Event) (s : Main)
    (hrun : runEvents Main.step (Main.init threads) es = some s) :
    (s.location = .returned 0 → .sigStop ∈ es) ∧
      AllSteps Main.step Main.ExitsFor (Main.init threads) es := by
  have hinit : (Main.init threads).ReturnsStopped :=
    ⟨init_crewed threads, fun hloc => by cases hloc⟩
  refine ⟨fun hloc => ?_, ?_⟩
  · have hs := run_invariant (fun _ _ _ => step_returnsStopped) hinit hrun
    exact ((run_shouldStop hrun).mp (hs.2 hloc)).resolve_left Bool.false_ne_true
  · exact allSteps_of_invariant (fun _ _ _ => step_crewed) (fun _ e hs => step_exits hs e)
      (init_crewed threads) es

/-- Main is told to stop after a reload. -/
theorem exit_codes_stop : ∃ s, runEvents Main.step (Main.init [1, 1])
      (reloadRun ++ [.worker 0 0, .worker 1 0] ++ List.replicate 6 (.main none)) = some s ∧
    s.location = .returned 0 ∧ .sigStop ∈ reloadRun ++ [.worker 0 0, .worker 1 0] ++
      List.replicate 6 (Main.Event.main none) :=
  ⟨_, rfl, rfl, (exit_codes [1, 1] _ _ rfl).1 rfl⟩

/-! ## Requests -/

namespace Main

/-- The workers in which `asio.run()` has not returned. -/
def busy (s : Main) : Nat := (s.instances.map fun a => a.workers.count false).sum

/-- The steps of the joins from an instance on. -/
def joins (s : Main) (i : Nat) : Nat := ((s.instances.map fun a => a.workers.length + 1).drop i).sum

/-- The workers of an instance that are yet to start. -/
def missing (s : Main) (i : Nat) : Nat :=
  match s.instances[i]? with
  | none => 0
  | some a => a.threadCount - a.workers.length

/-- A bound of the steps to the end, or to the load, if no `io_context` is left
to restart. -/
def remaining (s : Main) : Nat :=
  match s.location with
  | .start i => 3 * s.missing i + s.busy + s.joins 0 + 6
  | .restart _ => s.busy + s.joins 0 + 5
  | .join i k => s.busy + (s.joins i - k) + 4
  | .testStop => 3
  | .testReload => 2
  | .load => 1
  | _ => 0

/-- The step is not a signal, and the load has not started. -/
def Proceeds (s : Main) : Event → Prop
  | .main _ => s.location ≠ .loading
  | .worker _ _ => s.location ≠ .loading
  | _ => False

/-- Main has returned, or is in the load. -/
def Served (stop : Bool) (s : Main) : Prop :=
  if stop then s.isReturned = true else s.location = .loading

/-- What holds from a signal on until it is served, by a return or by a load. -/
structure Serving (stop : Bool) (s : Main) : Prop where
  crewed : s.Crewed
  attends : (s.location = .loading ∧ stop = false) ∨
    s.Attends (stop = true → s.shouldReload = false) (stop = false)
  stops : stop = true → s.shouldStop = true
  reloads : stop = false → s.shouldReload = true ∧ s.isReturned = false ∧
    (s.shouldStop = true → s.location = .load ∨ s.location = .loading)

end Main

namespace MainRunLemmas

open Main MainLemmas

variable {s s' : Main} {config : Option (Nat → Int)} {stop : Bool}

/-- Main attends to the signal. -/
theorem serving_attends (hs : s.Serving stop) (hout : s.location ≠ .loading) :
    s.Attends (stop = true → s.shouldReload = false) (stop = false) :=
  hs.attends.resolve_left fun h => hout h.1

/-- Main returns from the two tests, and from a load that fails. -/
theorem next_returned (h : s.next config = some s') (hreturned : s'.isReturned = true) :
    (s.location = .testStop ∧ s.shouldStop = true) ∨
    (s.location = .testReload ∧ s.shouldReload = false) ∨ s.location = .loading := by
  unfold next at h
  split at h
  case h_4 hloc =>
    cases h
    by_cases hstop : s.shouldStop = true
    · exact .inl ⟨hloc, hstop⟩
    · simp [isReturned, hstop] at hreturned
  case h_5 hloc =>
    cases h
    by_cases hreload : s.shouldReload = true
    · simp [isReturned, hreload] at hreturned
    · exact .inr (.inl ⟨hloc, Bool.eq_false_iff.mpr hreload⟩)
  case h_7 hloc => exact .inr (.inr hloc)
  all_goals
    (try split at h) <;> (try split at h) <;> cases h <;> simp_all [isReturned]

/-- In `AsioPool::run` main keeps to its course. -/
theorem next_run_serving (hs : s.Serving stop) (hloc : (∃ i, s.location = .restart i) ∨
      (∃ i, s.location = .start i) ∨ ∃ i k, s.location = .join i k)
    (h : s.next config = some s') : s'.Serving stop := by
  obtain ⟨⟨hstop, hreload, _⟩, hattends⟩ := next_run hloc h
  have hout : s.location ≠ .load ∧ s.location ≠ .loading ∧ s.location ≠ .testStop ∧
      s.location ≠ .testReload := by
    rcases hloc with ⟨i, hi⟩ | ⟨i, hi⟩ | ⟨i, k, hi⟩ <;> simp [hi]
  refine ⟨next_crewed hs.crewed h, .inr ?_, fun h' => hstop.trans (hs.stops h'), fun h' => ?_⟩
  · rw [hreload]
    exact hattends _ _ (serving_attends hs hout.2.1)
  · obtain ⟨hflag, _, hcourse⟩ := hs.reloads h'
    refine ⟨hreload.trans hflag, Bool.eq_false_iff.mpr fun hreturned => ?_, fun hstopped => ?_⟩
    · rcases next_returned h hreturned with ⟨hi, _⟩ | ⟨hi, _⟩ | hi
      · exact hout.2.2.1 hi
      · exact hout.2.2.2 hi
      · exact hout.2.1 hi
    · rcases hcourse (hstop.symm.trans hstopped) with hi | hi
      · exact absurd hi hout.1
      · exact absurd hi hout.2.1

theorem next_serving (hs : s.Serving stop) (hout : s.location ≠ .loading)
    (h : s.next config = some s') : s'.Serving stop := by
  have hcrewed := next_crewed hs.crewed h
  have hattends := serving_attends hs hout
  cases hloc : s.location with
  | restart i => exact next_run_serving hs (.inl ⟨i, hloc⟩) h
  | start i => exact next_run_serving hs (.inr (.inl ⟨i, hloc⟩)) h
  | join i k => exact next_run_serving hs (.inr (.inr ⟨i, k, hloc⟩)) h
  | testStop =>
    simp only [next, hloc] at h
    by_cases hstop : s.shouldStop = true
    · rw [if_pos hstop] at h
      cases h
      refine ⟨hcrewed, .inr trivial, hs.stops, fun hno => ?_⟩
      have hcourse := (hs.reloads hno).2.2 hstop
      simp [hloc] at hcourse
    · rw [if_neg hstop] at h
      cases h
      refine ⟨hcrewed, .inr fun hyes => absurd (hs.stops hyes) hstop, hs.stops, fun hno => ?_⟩
      exact ⟨(hs.reloads hno).1, rfl, fun h' => absurd h' hstop⟩
  | testReload =>
    have hbetween := (testReload_attends hloc).mp hattends
    simp only [next, hloc] at h
    by_cases hreload : s.shouldReload = true
    · rw [if_pos hreload] at h
      cases h
      have hload : stop = false := Bool.eq_false_iff.mpr fun hyes => by
        cases hreload.symm.trans (hbetween hyes)
      exact ⟨hcrewed, .inr hload, hs.stops, fun _ => ⟨hreload, rfl, fun _ => .inl rfl⟩⟩
    · rw [if_neg hreload] at h
      cases h
      exact ⟨hcrewed, .inr trivial, hs.stops, fun hno => absurd (hs.reloads hno).1 hreload⟩
  | load =>
    simp only [next, hloc] at h
    cases h
    refine ⟨hcrewed, .inl ⟨rfl, (load_attends hloc).mp hattends⟩, hs.stops, fun hno => ?_⟩
    exact ⟨(hs.reloads hno).1, rfl, fun _ => .inr rfl⟩
  | loading => exact absurd hloc hout
  | clearReload => exact absurd hattends (not_attends_reload (.inr hloc))
  | returned code => simp only [next, hloc] at h; cases h

theorem worker_serving (hs : s.Serving stop) (hout : s.location ≠ .loading) {i k : Nat}
    (h : s.workerReturns i k = some s') : s'.Serving stop := by
  have hcrewed := worker_crewed hs.crewed h
  obtain ⟨a, ha, _, _, rfl⟩ := worker_cases h
  refine ⟨hcrewed, .inr ?_, hs.stops, hs.reloads⟩
  exact set_attends ha (b := { a with workers := a.workers.set k true }) rfl
    (serving_attends hs hout)

theorem step_serving {e : Event} (hs : s.Serving stop) (hproceeds : s.Proceeds e)
    (h : s.step e = some s') : s'.Serving stop := by
  cases e with
  | main config => exact next_serving hs hproceeds h
  | worker i k => exact worker_serving hs hproceeds h
  | sigStop => exact hproceeds.elim
  | sigReload => exact hproceeds.elim

/-- A stop at a safe moment is served by a return. -/
theorem sigStop_serving (hs : s.sigStop.Crewed) (hsafe : s.safe .sigStop = true) :
    s.sigStop.Serving true := by
  refine ⟨hs, .inr ?_, fun _ => rfl, fun hno => by cases hno⟩
  unfold safe at hsafe
  rcases Bool.or_eq_true_iff.mp hsafe with hrestarted | hbetween
  · exact restarted_attends (s := { s with shouldStop := true }) hrestarted
  · simp only [Bool.and_eq_true, decide_eq_true_eq, Bool.not_eq_true'] at hbetween
    exact (testReload_attends (s := s.sigStop) hbetween.1).mpr fun _ => hbetween.2

/-- A reload at a safe moment is served by a load, unless main has been told to
stop and is still going to test for that. -/
theorem sigReload_serving (hs : s.sigReload.Crewed) (hrunning : s.isReturned = false)
    (hsafe : s.safe .sigReload = true) :
    s.sigReload.Serving (s.shouldStop && decide (s.location ≠ .load)) := by
  refine ⟨hs, .inr ?_, fun hyes => (Bool.and_eq_true_iff.mp hyes).1,
    fun hno => ⟨rfl, hrunning, fun hstop => ?_⟩⟩
  · unfold safe at hsafe
    simp only [Bool.or_eq_true, Bool.and_eq_true, decide_eq_true_eq, Bool.not_eq_true'] at hsafe
    rcases hsafe with (hrestarted | ⟨hloc, hstop⟩) | hloc
    · exact restarted_attends
        (s := { s with shouldReload := true, reloadPending := true }) hrestarted
    · refine (testReload_attends (s := s.sigReload) hloc).mpr fun hyes => ?_
      simp [hstop] at hyes
    · exact (load_attends (s := s.sigReload) hloc).mpr (by simp [hloc])
  · refine .inl (by_contra fun hload => ?_)
    have hstop' : s.shouldStop = true := hstop
    have hload' : s.location ≠ .load := hload
    simp [hstop', hload'] at hno

/-! ### The measure -/

theorem joins_succ {i : Nat} {a : AsioInstance} (ha : s.instances[i]? = some a) :
    s.joins i = a.workers.length + 1 + s.joins (i + 1) := by
  have hlen : i < (s.instances.map fun a => a.workers.length + 1).length := by
    rw [List.length_map]
    exact lt_of_getElem? ha
  unfold joins
  rw [List.drop_eq_getElem_cons hlen, List.sum_cons, List.getElem_map,
    (List.getElem?_eq_some_iff.mp ha).2]

/-- Instance `i` is replaced. -/
theorem busy_set {i : Nat} {a b : AsioInstance} (ha : s.instances[i]? = some a)
    (h : s'.instances = s.instances.set i b) :
    s'.busy + a.workers.count false = s.busy + b.workers.count false := by
  unfold busy
  rw [h]
  exact sum_map_set ha (fun a => a.workers.count false) b

theorem joins_set {i : Nat} {a b : AsioInstance} (ha : s.instances[i]? = some a)
    (h : s'.instances = s.instances.set i b) :
    s'.joins 0 + a.workers.length = s.joins 0 + b.workers.length := by
  have hsum := sum_map_set ha (fun a => a.workers.length + 1) b
  unfold joins
  rw [h, List.drop_zero, List.drop_zero]
  omega

theorem count_worker {workers : List Bool} {k : Nat} (hk : workers[k]? = some false) :
    (workers.set k true).count false + 1 = workers.count false := by
  obtain ⟨hlen, hworker⟩ := List.getElem?_eq_some_iff.mp hk
  have hpos : 0 < workers.count false := List.count_pos_iff.mpr (List.mem_of_getElem? hk)
  rw [List.count_set hlen, hworker]
  simp only [BEq.rfl, if_true]
  exact Nat.succ_pred_eq_of_pos hpos

theorem worker_lowers {i k : Nat} (hs : s.Crewed) (h : s.workerReturns i k = some s') :
    s'.remaining < s.remaining := by
  obtain ⟨a, ha, _, hk, hs'⟩ := worker_cases h
  have hrunning : s.outside = false := by
    by_contra hout
    rw [crew_none hs ha (Bool.not_eq_false _ |>.mp hout)] at hk
    cases hk
  have hloc : s'.location = s.location := by rw [hs']
  have hbusy : s'.busy + 1 = s.busy := by
    have hset := busy_set ha (congrArg instances hs')
    have hcount := count_worker hk
    dsimp only at hset
    omega
  have hjoins : ∀ j, s'.joins j = s.joins j := by
    intro j
    rw [hs']
    unfold joins
    rw [map_set_of_eq ha (by simp)]
  have hmissing : ∀ j, s'.missing j = s.missing j := by
    intro j
    rw [hs']
    unfold missing
    by_cases hj : j = i
    · subst hj
      rw [List.getElem?_set_self (lt_of_getElem? ha), ha]
      simp [AsioInstance.threadCount]
    · rw [List.getElem?_set_ne (Ne.symm hj)]
  unfold outside at hrunning
  unfold remaining
  rw [hloc]
  split at hrunning
  · next j hj =>
    rw [hj]
    simp only [hjoins]
    omega
  · next j hj =>
    rw [hj]
    simp only [hjoins, hmissing]
    omega
  · next j l hj =>
    rw [hj]
    simp only [hjoins]
    omega
  · cases hrunning

theorem next_lowers (hs : s.Serving stop) (hout : s.location ≠ .loading)
    (h : s.next config = some s') : s'.remaining < s.remaining := by
  have hattends := serving_attends hs hout
  cases hloc : s.location with
  | restart i =>
    have hlen := ((restart_attends hloc).mp hattends).1
    simp only [next, hloc, List.getElem?_eq_none hlen] at h
    cases h
    have hwas : s.remaining = s.busy + s.joins 0 + 5 := by
      unfold remaining
      rw [hloc]
    show s.busy + (s.joins 0 - 0) + 4 < _
    omega
  | start i =>
    simp only [next, hloc] at h
    split at h
    · cases h
    next a ha =>
    have hmissing : s.missing i = a.threadCount - a.workers.length := by
      unfold missing
      rw [ha]
    have hwas : s.remaining = 3 * s.missing i + s.busy + s.joins 0 + 6 := by
      unfold remaining
      rw [hloc]
    split at h
    · next hless =>
      -- One worker more, which has to return and to be joined.
      have hset : s'.instances = s.instances.set i { a with workers := a.workers ++ [false] } := by
        cases h
        rfl
      have hbusy := busy_set ha hset
      have hjoins := joins_set ha hset
      simp only [List.count_append, List.count_singleton_self] at hbusy
      simp only [List.length_append, List.length_singleton] at hjoins
      have hmissing' : s'.missing i = a.threadCount - (a.workers.length + 1) := by
        unfold missing
        rw [hset, List.getElem?_set_self (lt_of_getElem? ha)]
        simp [AsioInstance.threadCount]
      have hnow : s'.remaining = 3 * s'.missing i + s'.busy + s'.joins 0 + 6 := by
        cases h
        rfl
      omega
    · cases h
      show s.busy + s.joins 0 + 5 < _
      omega
  | join i k =>
    have hwas : s.remaining = s.busy + (s.joins i - k) + 4 := by
      unfold remaining
      rw [hloc]
    simp only [next, hloc] at h
    split at h
    · cases h
      show 3 < _
      omega
    next a ha =>
    have hjoins := joins_succ ha
    have hjoined := hs.crewed.joined i k a hloc ha
    split at h
    · cases h
    · next hworker =>
      cases h
      have hlen := lt_of_getElem? hworker
      show s.busy + (s.joins i - (k + 1)) + 4 < _
      omega
    · next hnone =>
      have hset : s'.instances = s.instances.set i { a with workers := [] } := by
        cases h
        rfl
      have hbusy := busy_set ha hset
      simp only [List.count_nil] at hbusy
      have hjoins' : s'.joins (i + 1) = s.joins (i + 1) := by
        unfold joins
        rw [hset, List.map_set, List.drop_set_of_lt (Nat.lt_succ_self i)]
      have hnow : s'.remaining = s'.busy + (s'.joins (i + 1) - 0) + 4 := by
        cases h
        rfl
      omega
  | testStop =>
    simp only [next, hloc] at h
    unfold remaining
    rw [hloc]
    by_cases hstop : s.shouldStop = true
    · rw [if_pos hstop] at h
      cases h
      exact Nat.zero_lt_succ 2
    · rw [if_neg hstop] at h
      cases h
      exact Nat.lt_succ_self 2
  | testReload =>
    simp only [next, hloc] at h
    unfold remaining
    rw [hloc]
    by_cases hreload : s.shouldReload = true
    · rw [if_pos hreload] at h
      cases h
      exact Nat.lt_succ_self 1
    · rw [if_neg hreload] at h
      cases h
      exact Nat.zero_lt_succ 1
  | load =>
    simp only [next, hloc] at h
    cases h
    unfold remaining
    rw [hloc]
    exact Nat.lt_succ_self 0
  | loading => exact absurd hloc hout
  | clearReload => exact absurd hattends (not_attends_reload (.inr hloc))
  | returned code => simp only [next, hloc] at h; cases h

/-- A worker that main waits for can return, since its `io_context` is stopped. -/
theorem serving_goesOn (hs : s.Serving stop) (hserved : ¬s.Served stop) :
    ∃ e s', s.Proceeds e ∧ s.step e = some s' := by
  have hout : s.location ≠ .loading := by
    intro hloc
    rcases hs.attends with ⟨_, hno⟩ | hattends
    · rw [Served, hno, if_neg Bool.false_ne_true] at hserved
      exact hserved hloc
    · exact not_attends_reload (.inl hloc) hattends
  have hattends := serving_attends hs hout
  have hmain : (∃ s', s.next none = some s') → ∃ e s', s.Proceeds e ∧ s.step e = some s' :=
    fun ⟨s', h⟩ => ⟨.main none, s', hout, h⟩
  cases hloc : s.location with
  | restart i =>
    refine hmain ?_
    simp only [next, hloc]
    split <;> exact ⟨_, rfl⟩
  | start i =>
    refine hmain ?_
    simp only [next, hloc, List.getElem?_eq_getElem (hs.crewed.starting i hloc)]
    split <;> exact ⟨_, rfl⟩
  | join i k =>
    cases ha : s.instances[i]? with
    | none =>
      refine hmain ?_
      simp only [next, hloc, ha]
      exact ⟨_, rfl⟩
    | some a =>
      cases hk : a.workers[k]? with
      | none => exact hmain ⟨_, by simp only [next, hloc, ha, hk]; rfl⟩
      | some returned =>
        cases returned with
        | true => exact hmain ⟨_, by simp only [next, hloc, ha, hk]; rfl⟩
        | false =>
          have hstopped := (join_attends hloc).mp hattends a (List.mem_of_getElem? ha)
          have hreturns : s.workerReturns i k = some { s with
              instances := s.instances.set i { a with workers := a.workers.set k true } } := by
            simp [workerReturns, ha, hk, hstopped]
          exact ⟨.worker i k, _, hout, hreturns⟩
  | testStop => exact hmain ⟨_, by simp only [next, hloc]; rfl⟩
  | testReload => exact hmain ⟨_, by simp only [next, hloc]; rfl⟩
  | load => exact hmain ⟨_, by simp only [next, hloc]; rfl⟩
  | loading => exact absurd hloc hout
  | clearReload => exact absurd hattends (not_attends_reload (.inr hloc))
  | returned code =>
    have hreturned := isReturned_of_location hloc
    cases stop with
    | true => exact absurd hreturned hserved
    | false => cases hreturned.symm.trans (hs.reloads rfl).2.1

theorem windsDown (stop : Bool) :
    WindsDown step Proceeds (Serving stop) (Served stop) remaining where
  keeps _ _ _ hs hproceeds h := step_serving hs hproceeds h
  lowers s e s' hs hproceeds h := by
    cases e with
    | main config => exact next_lowers hs hproceeds h
    | worker i k => exact worker_lowers hs.crewed h
    | sigStop => exact hproceeds.elim
    | sigReload => exact hproceeds.elim
  goesOn _ hs hserved := serving_goesOn hs hserved

end MainRunLemmas

/-- After a signal that fires at a safe moment, and without more signals, main
returns if it has been told to stop, unless it was about to load, and otherwise
comes to load the configuration. This holds whatever signals fired before, and
whether main has heard them or not. It takes a bounded number of steps, whatever
the order in which the workers return, and main is not stuck before. -/
theorem requests_served (threads : List Int) (es : List Main.Event) (s s' : Main)
    (e : Main.Event) (hrun : runEvents Main.step (Main.init threads) es = some s)
    (hsignal : e = .sigStop ∨ e = .sigReload) (hsafe : s.safe e = true)
    (hstep : s.step e = some s') :
    EndsWithin Main.step Main.Proceeds
      (Main.Served (s'.shouldStop && decide (s.location ≠ .load))) s' s'.remaining := by
  have hs : s.Crewed := run_invariant (fun _ _ _ => step_crewed) (init_crewed threads) hrun
  have hcrewed := step_crewed hs hstep
  have hrunning := step_running hs hstep
  refine (windsDown _).endsWithin ?_
  rcases hsignal with rfl | rfl
  · rw [Main.step, if_neg (by rw [hrunning]; exact Bool.false_ne_true)] at hstep
    cases hstep
    have hserving := sigStop_serving hcrewed hsafe
    have hload : s.location ≠ .load := by
      intro hloc
      simp [Main.safe, Main.restarted, hloc] at hsafe
    simpa [hload, Main.sigStop, Main.stop] using hserving
  · rw [Main.step, if_neg (by rw [hrunning]; exact Bool.false_ne_true)] at hstep
    cases hstep
    exact sigReload_serving hcrewed hrunning hsafe

/-- A stop before the first restart is forgotten, until main is told to reload
while it waits. -/
theorem requests_served_stop : ∃ s s',
    runEvents Main.step (Main.init [1, 1]) (.sigStop :: startRun) = some s ∧
    s.leftWaiting = true ∧ s.step .sigReload = some s' ∧ s'.remaining = 10 ∧
    EndsWithin Main.step Main.Proceeds (Main.Served true) s' s'.remaining :=
  ⟨_, _, rfl, rfl, rfl, rfl,
    requests_served [1, 1] (.sigStop :: startRun) _ _ .sigReload rfl (.inr rfl) (by decide) rfl⟩

end Ian.Front
