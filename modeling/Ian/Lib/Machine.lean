import Mathlib.Tactic.Common

/-!
# Event machines

A component that reacts to events is a partial step function: `step s e` is
the state after event `e`, or `none` if `e` cannot happen in `s`. A run is a
list of events. `run_invariant` is the induction over runs: what every step
keeps holds in every state a run reaches. `run_invariant_of` asks this only of
the steps that meet a condition, for runs all of whose steps meet it.

`allStates_iff` and `allSteps_congr` are for a property that some steps break:
they turn "this is exactly what the step must not do" into the same statement
about whole runs.
-/

namespace Ian.Lib

variable {σ ε : Type}

/-- The state a run ends in, if every event of it can happen. -/
def runEvents (step : σ → ε → Option σ) : σ → List ε → Option σ
  | s, [] => some s
  | s, e :: es => (step s e).bind fun s' => runEvents step s' es

theorem runEvents_append {step : σ → ε → Option σ} {s s' : σ} {es : List ε}
    (h : runEvents step s es = some s') (es' : List ε) :
    runEvents step s (es ++ es') = runEvents step s' es' := by
  induction es generalizing s with
  | nil =>
    cases h
    rfl
  | cons e es ih =>
    obtain ⟨t, ht, hrest⟩ := Option.bind_eq_some_iff.mp h
    rw [List.cons_append, runEvents, ht]
    exact ih hrest

/-- Every step of the run from `s` meets the condition. -/
def AllSteps (step : σ → ε → Option σ) (C : σ → ε → Prop) : σ → List ε → Prop
  | _, [] => True
  | s, e :: es => C s e ∧ ∀ s', step s e = some s' → AllSteps step C s' es

instance decidableAllSteps {step : σ → ε → Option σ} {C : σ → ε → Prop}
    [∀ s e, Decidable (C s e)] : ∀ s es, Decidable (AllSteps step C s es)
  | _, [] => isTrue trivial
  | s, e :: es =>
    match h : step s e with
    | none => decidable_of_iff (C s e) (by simp [AllSteps, h])
    | some s' =>
      have : Decidable (AllSteps step C s' es) := decidableAllSteps s' es
      decidable_of_iff (C s e ∧ AllSteps step C s' es) (by simp [AllSteps, h])

theorem run_invariant_of {step : σ → ε → Option σ} {C : σ → ε → Prop} {I : σ → Prop}
    (hstep : ∀ s e s', I s → C s e → step s e = some s' → I s') {s s' : σ} {es : List ε}
    (hs : I s) (hC : AllSteps step C s es) (hrun : runEvents step s es = some s') : I s' := by
  induction es generalizing s with
  | nil =>
    cases hrun
    exact hs
  | cons e es ih =>
    obtain ⟨hCe, hCes⟩ := hC
    obtain ⟨t, ht, hrest⟩ := Option.bind_eq_some_iff.mp hrun
    exact ih (hstep s e t hs hCe ht) (hCes t ht) hrest

theorem allSteps_true (step : σ → ε → Option σ) (s : σ) (es : List ε) :
    AllSteps step (fun _ _ => True) s es := by
  induction es generalizing s with
  | nil => trivial
  | cons e es ih => exact ⟨trivial, fun s' _ => ih s'⟩

theorem run_invariant {step : σ → ε → Option σ} {I : σ → Prop}
    (hstep : ∀ s e s', I s → step s e = some s' → I s') {s s' : σ} {es : List ε} (hs : I s)
    (hrun : runEvents step s es = some s') : I s' :=
  run_invariant_of (fun s e s' hI _ h => hstep s e s' hI h) hs (allSteps_true step s es) hrun

/-- What follows from an invariant holds at every step of every run. -/
theorem allSteps_of_invariant {step : σ → ε → Option σ} {I : σ → Prop} {P : σ → ε → Prop}
    (hstep : ∀ s e s', I s → step s e = some s' → I s') (hP : ∀ s e, I s → P s e) {s : σ}
    (hs : I s) (es : List ε) : AllSteps step P s es := by
  induction es generalizing s with
  | nil => trivial
  | cons e es ih => exact ⟨hP s e hs, fun s' h => ih (hstep s e s' hs h)⟩

/-- Every state of the run from `s` has the property. -/
def AllStates (step : σ → ε → Option σ) (P : σ → Prop) : σ → List ε → Prop
  | s, [] => P s
  | s, e :: es => P s ∧ ∀ s', step s e = some s' → AllStates step P s' es

theorem AllStates.head {step : σ → ε → Option σ} {P : σ → Prop} {s : σ} {es : List ε}
    (h : AllStates step P s es) : P s := by
  cases es with
  | nil => exact h
  | cons e es => exact h.1

/-- If a step keeps the property exactly when it meets the condition, a run has
the property throughout exactly when all its steps meet the condition. -/
theorem allStates_iff {step : σ → ε → Option σ} {I P : σ → Prop} {C : σ → ε → Prop}
    (hI : ∀ s e s', I s → step s e = some s' → I s')
    (hP : ∀ s e s', I s → P s → step s e = some s' → (P s' ↔ C s e)) {s s' : σ} {es : List ε}
    (hs : I s) (hPs : P s) (hrun : runEvents step s es = some s') :
    AllStates step P s es ↔ AllSteps step C s es := by
  induction es generalizing s with
  | nil => exact ⟨fun _ => trivial, fun _ => hPs⟩
  | cons e es ih =>
    obtain ⟨t, ht, hrest⟩ := Option.bind_eq_some_iff.mp hrun
    have hstep := hP s e t hs hPs ht
    constructor
    · intro hall
      have hPt : P t := (hall.2 t ht).head
      refine ⟨hstep.mp hPt, fun t' ht' => ?_⟩
      cases ht.symm.trans ht'
      exact (ih (hI s e t hs ht) hPt hrest).mp (hall.2 t ht)
    · intro hall
      refine ⟨hPs, fun t' ht' => ?_⟩
      cases ht.symm.trans ht'
      exact (ih (hI s e t hs ht) (hstep.mpr hall.1) hrest).mpr (hall.2 t ht)

/-- What the steps of a run let see, in order. -/
def observe {α : Type} (step : σ → ε → Option σ) (f : σ → ε → List α) : σ → List ε → List α
  | _, [] => []
  | s, e :: es => f s e ++ ((step s e).map fun s' => observe step f s' es).getD []

theorem observe_cons {α : Type} {step : σ → ε → Option σ} {f : σ → ε → List α} {s s' : σ} {e : ε}
    (h : step s e = some s') (es : List ε) :
    observe step f s (e :: es) = f s e ++ observe step f s' es := by
  rw [observe, h]
  rfl

/-- A step that appends to what has been seen leaves it as it was if it appends
nothing. -/
theorem appends_nothing_iff {α : Type} {step : σ → ε → Option σ} {f : σ → List α} {s s' : σ} {e : ε}
    {more : List α} {P : Prop} (h : step s e = some s') (hmore : f s' = f s ++ more) :
    (∀ t, step s e = some t → P → f t = f s) ↔ (P → more = []) := by
  constructor
  · intro hsame hP
    exact List.append_right_eq_self.mp (hmore.symm.trans (hsame s' h hP))
  · intro hnone t ht hP
    cases h.symm.trans ht
    rw [hmore, hnone hP, List.append_nil]

/-- Two conditions that agree on the steps taken agree on runs. -/
theorem allSteps_congr {step : σ → ε → Option σ} {I : σ → Prop} {C C' : σ → ε → Prop}
    (hI : ∀ s e s', I s → step s e = some s' → I s')
    (hC : ∀ s e s', I s → step s e = some s' → (C s e ↔ C' s e)) {s s' : σ} {es : List ε}
    (hs : I s) (hrun : runEvents step s es = some s') :
    AllSteps step C s es ↔ AllSteps step C' s es := by
  induction es generalizing s with
  | nil => exact Iff.rfl
  | cons e es ih =>
    obtain ⟨t, ht, hrest⟩ := Option.bind_eq_some_iff.mp hrun
    have hnext : (∀ t', step s e = some t' → AllSteps step C t' es) ↔
        ∀ t', step s e = some t' → AllSteps step C' t' es := by
      rw [ht]
      simpa using ih (hI s e t hs ht) hrest
    exact and_congr (hC s e t hs ht) hnext

/-! ## Pending operations

A list of outstanding operations is looked at one kind at a time, with
`List.filter`; completing one takes the first of its kind off the list. -/

variable {α : Type}

theorem filter_eraseP_self (p : α → Bool) (l : List α) :
    (l.eraseP p).filter p = (l.filter p).tail := by
  induction l with
  | nil => rfl
  | cons a l ih =>
    cases ha : p a with
    | true => rw [List.eraseP_cons_of_pos ha, List.filter_cons_of_pos ha, List.tail_cons]
    | false =>
      have hneg : ¬p a = true := by simp [ha]
      rw [List.eraseP_cons_of_neg hneg, List.filter_cons_of_neg hneg, List.filter_cons_of_neg hneg,
        ih]

theorem filter_eraseP_of_disjoint {p q : α → Bool} (h : ∀ a, p a = true → q a = false)
    (l : List α) : (l.eraseP p).filter q = l.filter q := by
  induction l with
  | nil => rfl
  | cons a l ih =>
    cases ha : p a with
    | true =>
      have hneg : ¬q a = true := by simp [h a ha]
      rw [List.eraseP_cons_of_pos ha, List.filter_cons_of_neg hneg]
    | false =>
      rw [List.eraseP_cons_of_neg (by simp [ha]), List.filter_cons, List.filter_cons, ih]

theorem countP_eraseP_of_disjoint {p q : α → Bool} (h : ∀ a, p a = true → q a = false)
    (l : List α) : (l.eraseP p).countP q = l.countP q := by
  rw [List.countP_eq_length_filter, List.countP_eq_length_filter, filter_eraseP_of_disjoint h]

theorem countP_eraseP_of_imp {p q : α → Bool} (h : ∀ a, p a = true → q a = true) {l : List α}
    (hany : l.any p = true) : (l.eraseP p).countP q + 1 = l.countP q := by
  induction l with
  | nil => cases hany
  | cons a l ih =>
    cases ha : p a with
    | true => rw [List.eraseP_cons_of_pos ha, List.countP_cons_of_pos (h a ha)]
    | false =>
      rw [List.any_cons, ha, Bool.false_or] at hany
      rw [List.eraseP_cons_of_neg (by simp [ha]), List.countP_cons, List.countP_cons, ← ih hany]
      omega

theorem countP_pos_of_any {p q : α → Bool} (h : ∀ a, p a = true → q a = true) {l : List α}
    (hany : l.any p = true) : 0 < l.countP q := by
  have hcount := countP_eraseP_of_imp h hany
  omega

end Ian.Lib
