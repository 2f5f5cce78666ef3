import Ian.Lib.Machine

/-!
# Chains of handlers

An object that is driven by its own asynchronous operations lives as long as
each handler leaves an operation behind that will run the next one. `Chain` is
such an object: a machine some of whose events run handlers, with the number of
its outstanding operations. A handler that throws ends the chain.
-/

namespace Ian.Lib

variable {σ ε : Type}

structure Chain (σ ε : Type) where
  step : σ → ε → Option σ
  /-- The event runs a handler. -/
  isHandler : ε → Bool
  /-- A call that the handler makes throws. -/
  throws : σ → ε → Bool
  started : σ → Bool
  crashed : σ → Bool
  continuations : σ → Nat

namespace Chain

/-- The handler of a step returns and leaves exactly one continuation. -/
def Returns (c : Chain σ ε) (s' : σ) : Prop := c.crashed s' = false ∧ c.continuations s' = 1

/-- In every run from `s`, a handler returns with exactly one continuation if
and only if none of its calls throws; and as long as none throws, the object
has not crashed and, once it is started, has exactly one continuation. -/
def GoesOn (c : Chain σ ε) (s : σ) : Prop :=
  ∀ es : List ε,
    AllSteps c.step (fun s e => ∀ s', c.isHandler e = true → c.step s e = some s' →
      (c.Returns s' ↔ c.throws s e = false)) s es ∧
    (AllSteps c.step (fun s e => c.throws s e = false) s es →
      ∀ s', runEvents c.step s es = some s' →
        c.crashed s' = false ∧ (c.started s' = true → c.continuations s' = 1))

/-- An invariant that leaves one continuation to every started object that has
not crashed. -/
theorem goesOn_of_invariant {c : Chain σ ε} {I : σ → Prop}
    (hstep : ∀ s e s', I s → c.step s e = some s' → I s' ∧ c.crashed s' = c.throws s e ∧
      (c.isHandler e = true → c.started s' = true))
    (hone : ∀ s, I s → c.started s = true → c.crashed s = false → c.continuations s = 1)
    {s : σ} (hs : I s) (hcrashed : c.crashed s = false) : c.GoesOn s := by
  intro es
  constructor
  · refine allSteps_of_invariant (fun s e s' hI h => (hstep s e s' hI h).1) ?_ hs es
    intro s e hI s' hhandler h
    obtain ⟨hI', hcrash, hstarted⟩ := hstep s e s' hI h
    constructor
    · intro hreturns
      exact hcrash.symm.trans hreturns.1
    · intro hthrows
      have hnot := hcrash.trans hthrows
      exact ⟨hnot, hone s' hI' (hstarted hhandler) hnot⟩
  · intro hall s' hrun
    have hinv : I s' ∧ c.crashed s' = false := by
      refine run_invariant_of (I := fun s => I s ∧ c.crashed s = false) ?_ ⟨hs, hcrashed⟩ hall hrun
      intro s e s' hI hthrows h
      obtain ⟨hI', hcrash, _⟩ := hstep s e s' hI.1 h
      exact ⟨hI', hcrash.trans hthrows⟩
    exact ⟨hinv.2, fun hstarted => hone s' hinv.1 hstarted hinv.2⟩

end Chain

end Ian.Lib
